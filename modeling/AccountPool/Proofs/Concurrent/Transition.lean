import AccountPool.Proofs.Concurrent.System

/-!
# No transition is lost or made twice

In every run of any number of clients the status of an account changes only when the account is put or
deleted or when a transition succeeds, and a transition succeeds only from the status that it names:
`Moment.status_cases` and `Moment.Lawful.transition`. So of several clients that race for the same
transition exactly one succeeds, which is `transition_once`.
-/

namespace AccountPool

open Program (Result)

/-! ## The status of an account -/

/-- The status of an account, if there is one. -/
def Inventory.status? (inventory : Inventory) (id : String) : Option AccountStatus :=
  (inventory.accounts.find? id).map Account.status

/-- What an access with a result does to the status of an account. -/
inductive StatusEffect (id : String) :
    (access : Access) → Result access.Reply → Option AccountStatus → Option AccountStatus → Prop where
  | kept {access result status} : StatusEffect id access result status status
  | put {account previous status} :
      account.id = id →
      StatusEffect id (.putAccount account) (.ok previous) status (some account.status)
  | deleted {account status} : StatusEffect id (.deleteAccount id) (.ok account) status none
  | moved {previous next account} :
      StatusEffect id (.editAccount id (.status previous next)) (.ok account) (some previous) (some next)

namespace Inventory

/-- The account that is found after one was filed. -/
theorem find?_insert_account (inventory : Inventory) (account : Account) (other id : String) :
    ({ inventory with accounts := inventory.accounts.insert other account } : Inventory).status? id =
      if id = other then some account.status else inventory.status? id := by
  rw [status?, SortedMap.find?_insert]
  split <;> rfl

/-- The status of an account changes only if it is put, deleted, or moved from the status it has. -/
theorem statusEffect (inventory : Inventory) (now : Int64) (access : Access) (id : String) :
    StatusEffect id access (inventory.perform now access).1 (inventory.status? id)
      ((inventory.perform now access).2.status? id) := by
  cases access with
  | putAccount account =>
      simp only [perform, find?_insert_account]
      split
      · next hid => exact .put hid.symm
      · exact .kept
  | editAccount other edit =>
      obtain ⟨account, haccount, hallows⟩ | hrefused := inventory.editable_or_not other edit
      · rw [perform_editAccount haccount hallows, find?_insert_account]
        split
        · next hid =>
            subst hid
            have hstatus : inventory.status? id = some account.status := by rw [status?, haccount]; rfl
            rw [hstatus]
            cases edit with
            | status previous next =>
                obtain rfl : account.status = previous := of_decide_eq_true hallows
                exact .moved
            | policyHash previous next => exact .kept
            | metadata members => exact .kept
        · exact .kept
      · rw [perform_editAccount_refused hrefused]
        exact .kept
  | deleteAccount other =>
      obtain ⟨account, haccount, hfree⟩ | hleased := inventory.removable_or_not other
      · rw [perform_deleteAccount haccount hfree, status?, status?, SortedMap.find?_erase]
        split
        · next hid =>
            subst hid
            exact .deleted
        · exact .kept
      · rw [perform_deleteAccount_refused hleased]
        exact .kept
  | moveLease accountId principalId previous next =>
      have hsame : (inventory.perform now (.moveLease accountId principalId previous next)).2.status? id =
          inventory.status? id := by
        simp only [perform]
        repeat' split
        all_goals rfl
      rw [hsame]
      exact .kept
  | getAccount | getLease | putLease | deleteLease => exact .kept

end Inventory

/-! ## One moment -/

variable {ι : Type} [DecidableEq ι] {backend : Backend} {settings : PoolSettings} {moment : Moment ι}

namespace Moment.Lawful

/-- An access other than the removal of an account takes effect at the moment at which its call comes to
its result. -/
theorem returns_access (h : moment.Lawful backend settings) (hbackend : backend.Provided)
    (hnames : settings.accountTable ≠ settings.leaseTable) {inventory : Inventory}
    (hinventory : Represents backend settings moment.before.store inventory) {client : ι}
    {access : Access} (haccess : ∀ id, access ≠ .deleteAccount id) {result : Result access.Reply}
    (hreturns : moment.Returns client (.one access) result) :
    ∃ time, result = (inventory.perform time access).1 ∧
      Represents backend settings moment.after.store (inventory.perform time access).2 := by
  obtain ⟨⟨now, hevent⟩, htask⟩ := hreturns
  have hstep := h.step
  rw [hevent] at hstep
  obtain ⟨-, honly⟩ | ⟨other, time, hother, hafter⟩ :=
    h.sound.act hbackend hnames h.before hinventory hstep
  · obtain ⟨id, hid⟩ := honly access result htask
    exact absurd hid (haccess id)
  · rw [htask] at hother
    cases hother
    exact ⟨time, rfl, hafter⟩

/-- A transition succeeds exactly if the account has the expected status; then it has the next one. -/
theorem transition (h : moment.Lawful backend settings) (hbackend : backend.Provided)
    (hnames : settings.accountTable ≠ settings.leaseTable) {client : ι} {id : String}
    {previous next : AccountStatus} {result : Result Account}
    (hreturns : moment.Returns client (.one (.editAccount id (.status previous next))) result) :
    (∃ found account, moment.before.account? backend (.ofSettings settings) id = .ok (some found) ∧
      found.status = previous ∧ result = .ok account ∧ account.status = next ∧
      moment.after.account? backend (.ofSettings settings) id = .ok (some account)) ∨
    (moment.before.status? backend (.ofSettings settings) id ≠ .ok (some previous) ∧
      result = .error (.rejected (Pool.accountStatusChange id previous next).rejection)) := by
  obtain ⟨inventory, hinventory⟩ := h.sound.represents
  obtain ⟨time, rfl, hafter⟩ := h.returns_access hbackend hnames hinventory (by rintro _ ⟨⟩) hreturns
  rw [System.account?_eq hinventory h.before, System.account?_eq hafter h.after,
    System.status?_eq hinventory h.before]
  obtain ⟨found, hfound, hallows⟩ | hrefused := inventory.editable_or_not id (.status previous next)
  · rw [Inventory.perform_editAccount hfound hallows]
    refine .inl ⟨found, _, congrArg Except.ok hfound, of_decide_eq_true hallows, rfl, rfl, ?_⟩
    rw [SortedMap.find?_insert_self]
  · rw [Inventory.perform_editAccount_refused hrefused]
    refine .inr ⟨fun hstatus => ?_, rfl⟩
    obtain ⟨found, hfound, hsame⟩ := Option.map_eq_some_iff.1 (Except.ok.inj hstatus)
    have hallows : (AccountEdit.status previous next).allows found = true := decide_eq_true hsame
    rw [hrefused found hfound] at hallows
    cases hallows

/-- The status of an account changes only at a moment at which a call that changes it comes to its
result. -/
theorem status_cases (h : moment.Lawful backend settings) (hbackend : backend.Provided)
    (hnames : settings.accountTable ≠ settings.leaseTable) (id : String) :
    moment.after.status? backend (.ofSettings settings) id =
        moment.before.status? backend (.ofSettings settings) id ∨
    ∃ client access result before after, moment.Returns client (.one access) result ∧
      StatusEffect id access result before after ∧
      moment.before.status? backend (.ofSettings settings) id = .ok before ∧
      moment.after.status? backend (.ofSettings settings) id = .ok after := by
  obtain ⟨inventory, hinventory⟩ := h.sound.represents
  have hkept (hstore : moment.after.store = moment.before.store) :
      moment.after.status? backend (.ofSettings settings) id =
        moment.before.status? backend (.ofSettings settings) id := by
    rw [System.status?, System.status?, System.account?_of_store_eq hstore]
  have hstep := h.step
  cases hevent : moment.event with
  | start client operation => exact .inl (hkept (hstep.store_eq (by simp [hevent])))
  | finish client => exact .inl (hkept (hstep.store_eq (by simp [hevent])))
  | act client now =>
      rw [hevent] at hstep
      obtain ⟨hstore, -⟩ | ⟨access, time, htask, hafter⟩ :=
        h.sound.act hbackend hnames h.before hinventory hstep
      · exact .inl (hkept hstore)
      · refine .inr ⟨client, access, _, _, _, ⟨⟨now, hevent⟩, htask⟩,
          inventory.statusEffect time access id, ?_, ?_⟩
        · exact System.status?_eq hinventory h.before id
        · exact System.status?_eq hafter h.after id

end Moment.Lawful

/-! ## Calls that change a status -/

namespace Moment

/-- An account is put. -/
def Puts (moment : Moment ι) (account : Account) : Prop :=
  ∃ client previous, moment.Returns client (.one (.putAccount account)) (.ok previous)

/-- An account is deleted. -/
def Deletes (moment : Moment ι) (id : String) : Prop :=
  ∃ client account, moment.Returns client (.one (.deleteAccount id)) (.ok account)

/-- A transition of an account succeeds. -/
def Moves (moment : Moment ι) (id : String) (previous next : AccountStatus) : Prop :=
  ∃ client account,
    moment.Returns client (.one (.editAccount id (.status previous next))) (.ok account)

end Moment

/-- An operation that may change an account. -/
def Operation.Writes (id : String) : Operation → Prop
  | .one (.putAccount account) => account.id = id
  | .one (.editAccount other _) | .one (.deleteAccount other) => other = id
  | _ => False

section Runs

variable {moments : List (Moment ι)} {system last : System ι} (hbackend : backend.Provided)
  (hnames : settings.accountTable ≠ settings.leaseTable)

include hbackend hnames

omit [DecidableEq ι] in
/-- The status of an account changes only when it is put or deleted or when a transition succeeds. -/
theorem Moment.Lawful.status_changed [DecidableEq ι] (h : moment.Lawful backend settings) {id : String}
    (hchanged : moment.after.status? backend (.ofSettings settings) id ≠
      moment.before.status? backend (.ofSettings settings) id) :
    (∃ account, account.id = id ∧ moment.Puts account) ∨ moment.Deletes id ∨
      ∃ previous next, moment.Moves id previous next := by
  obtain hsame | ⟨client, access, result, before, after, hreturns, heffect, hbefore, hafter⟩ :=
    h.status_cases hbackend hnames id
  · exact absurd hsame hchanged
  · cases heffect with
    | kept => exact absurd (hafter.trans hbefore.symm) hchanged
    | put hid => exact .inl ⟨_, hid, client, _, hreturns⟩
    | deleted => exact .inr (.inl ⟨client, _, hreturns⟩)
    | moved => exact .inr (.inr ⟨_, _, client, _, hreturns⟩)

/-- If an account comes to have a status during a run, it is put with this status or moved into it. -/
theorem Run.moved_into (hrun : Run backend (.ofSettings settings) system moments last)
    (hlawful : ∀ moment ∈ moments, moment.Lawful backend settings) {id : String}
    {status : AccountStatus}
    (hstart : system.status? backend (.ofSettings settings) id ≠ .ok (some status))
    (hlast : last.status? backend (.ofSettings settings) id = .ok (some status)) :
    ∃ moment ∈ moments, (∃ account, account.id = id ∧ account.status = status ∧ moment.Puts account) ∨
      ∃ previous, moment.Moves id previous status := by
  refine Classical.byContradiction ?_
  intro hnone
  -- If no moment put or moved the account into the status, its status would be another one throughout.
  let unlike (system : System ι) : Prop :=
    system.status? backend (.ofSettings settings) id ≠ .ok (some status)
  refine (hrun.invariant unlike hstart fun moment hmem hbefore hafter => hnone ⟨moment, hmem, ?_⟩).1 hlast
  obtain hsame | ⟨client, access, result, before, after, hreturns, heffect, hbefore', hafter'⟩ :=
    (hlawful moment hmem).status_cases hbackend hnames id
  · exact absurd (hsame.symm.trans hafter) hbefore
  · have hstatus : after = some status := Except.ok.inj (hafter'.symm.trans hafter)
    cases heffect with
    | kept => exact absurd (hbefore'.trans (congrArg Except.ok hstatus)) hbefore
    | put hid => exact .inl ⟨_, hid, Option.some.inj hstatus, client, _, hreturns⟩
    | deleted => cases hstatus
    | moved =>
        cases hstatus
        exact .inr ⟨_, client, _, hreturns⟩

/-- A status lasts through a run in which no put, delete or transition of the account comes to its
result. -/
theorem Run.status_lasts (hrun : Run backend (.ofSettings settings) system moments last)
    (hlawful : ∀ moment ∈ moments, moment.Lawful backend settings) {id : String}
    {status : AccountStatus}
    (hstart : system.status? backend (.ofSettings settings) id = .ok (some status))
    (hquiet : ∀ moment ∈ moments, ∀ client operation result, moment.Returns client operation result →
      operation.Writes id → ∃ previous next, previous ≠ status ∧
        operation = .one (.editAccount id (.status previous next))) :
    last.status? backend (.ofSettings settings) id = .ok (some status) ∧
      ∀ moment ∈ moments,
        moment.before.status? backend (.ofSettings settings) id = .ok (some status) := by
  refine hrun.invariant
    (fun system => system.status? backend (.ofSettings settings) id = .ok (some status)) hstart
    fun moment hmem hbefore => ?_
  obtain hsame | ⟨client, access, result, before, after, hreturns, heffect, hbefore', hafter'⟩ :=
    (hlawful moment hmem).status_cases hbackend hnames id
  · exact hsame.trans hbefore
  · have hstatus : before = some status := Except.ok.inj (hbefore'.symm.trans hbefore)
    have hreturned := hquiet moment hmem client _ _ hreturns
    cases heffect with
    | kept => exact hafter'.trans (congrArg Except.ok hstatus)
    | put hid =>
        obtain ⟨_, _, -, hoperation⟩ := hreturned hid
        cases hoperation
    | deleted =>
        obtain ⟨_, _, -, hoperation⟩ := hreturned rfl
        cases hoperation
    | moved =>
        obtain ⟨_, _, hne, hoperation⟩ := hreturned rfl
        cases hoperation
        exact absurd (Option.some.inj hstatus) hne

/-- Once an account has another status than the one that all transitions expect, all of them are refused
and the account keeps its status. -/
theorem Run.race_lost (hrun : Run backend (.ofSettings settings) system moments last)
    (hlawful : ∀ moment ∈ moments, moment.Lawful backend settings) {id : String}
    {status held : AccountStatus} (hne : status ≠ held)
    (hstart : system.status? backend (.ofSettings settings) id = .ok (some held))
    (hwrites : ∀ moment ∈ moments, ∀ client operation result,
      moment.Returns client operation result → operation.Writes id →
        ∃ next, operation = .one (.editAccount id (.status status next))) :
    last.status? backend (.ofSettings settings) id = .ok (some held) ∧
      ∀ moment ∈ moments, ∀ client next result,
        moment.Returns client (.one (.editAccount id (.status status next))) result →
          result = .error (.rejected (Pool.accountStatusChange id status next).rejection) := by
  obtain ⟨hlast, hmoments⟩ := hrun.status_lasts hbackend hnames hlawful hstart
    fun moment hmem client operation result hreturn hwrite => by
      obtain ⟨next, rfl⟩ := hwrites moment hmem client operation result hreturn hwrite
      exact ⟨status, next, hne, rfl⟩
  refine ⟨hlast, ?_⟩
  intro moment hmem client next result hreturn
  obtain ⟨found, -, hbefore, hfound, -⟩ | ⟨-, hrefused⟩ :=
    (hlawful moment hmem).transition hbackend hnames hreturn
  · have hsame := (hmoments moment hmem).symm.trans (System.status?_of_account? hbefore)
    rw [hfound] at hsame
    exact absurd (Option.some.inj (Except.ok.inj hsame)).symm hne
  · exact hrefused

/-- Of clients that race to move an account out of the status that it has, exactly one succeeds, and the
account is left in the status to which it moved it. -/
theorem Run.race (hrun : Run backend (.ofSettings settings) system moments last)
    (hlawful : ∀ moment ∈ moments, moment.Lawful backend settings) {id : String}
    {status : AccountStatus} {count : Nat} (hcount : 0 < count) {racer : Fin count → ι}
    (hracer : ∀ i j, racer i = racer j → i = j) {target : Fin count → AccountStatus}
    (htarget : ∀ i, target i ≠ status) {outcome : Fin count → Result Account}
    (hstart : system.status? backend (.ofSettings settings) id = .ok (some status))
    (hreturns : ∀ i, returns (racer i) moments =
      [⟨.one (.editAccount id (.status status (target i))), outcome i⟩])
    (hothers : ∀ moment ∈ moments, ∀ client operation result,
      moment.Returns client operation result → operation.Writes id → ∃ i, client = racer i) :
    ∃ winner, (∃ account, outcome winner = .ok account ∧ account.status = target winner) ∧
      (∀ i, i ≠ winner → outcome i =
        .error (.rejected (Pool.accountStatusChange id status (target i)).rejection)) ∧
      last.status? backend (.ofSettings settings) id = .ok (some (target winner)) := by
  -- The call of a racer that comes to its result is the one transition that it makes.
  have hcall {moment : Moment ι} (hmem : moment ∈ moments) {i : Fin count} {operation : Operation}
      {result : Result operation.Reply} (hreturn : moment.Returns (racer i) operation result) :
      (⟨operation, result⟩ : Σ operation : Operation, Result operation.Reply) =
        ⟨.one (.editAccount id (.status status (target i))), outcome i⟩ := by
    have hlisted := mem_returns.2 ⟨moment, hmem, hreturn⟩
    rw [hreturns i] at hlisted
    exact List.mem_singleton.1 hlisted
  have hfound (i : Fin count) : ∃ moment ∈ moments,
      moment.Returns (racer i) (.one (.editAccount id (.status status (target i)))) (outcome i) := by
    refine mem_returns.1 ?_
    rw [hreturns i]
    exact List.mem_singleton_self _
  -- The winner is the racer whose call comes to its result first.
  obtain ⟨earlier, ⟨middle, event, next⟩, later, rfl, ⟨winner, operation, result, hwinner⟩, hearlier⟩ :=
    exists_first (p := fun moment => ∃ i operation result, moment.Returns (racer i) operation result) <| by
      obtain ⟨moment, hmem, hreturn⟩ := hfound ⟨0, hcount⟩
      exact ⟨moment, hmem, _, _, _, hreturn⟩
  obtain ⟨_, hrunEarlier, hrunLater⟩ := hrun.of_append
  cases hrunLater with
  | cons hstep hlater =>
      have hmemEarlier {moment : Moment ι} (hmem : moment ∈ earlier) :
          moment ∈ earlier ++ ⟨middle, event, next⟩ :: later := List.mem_append_left _ hmem
      have hmemLater {moment : Moment ι} (hmem : moment ∈ later) :
          moment ∈ earlier ++ ⟨middle, event, next⟩ :: later :=
        List.mem_append_right _ (List.mem_cons_of_mem _ hmem)
      have hmemFirst : (⟨middle, event, next⟩ : Moment ι) ∈ earlier ++ ⟨middle, event, next⟩ :: later :=
        List.mem_append_right _ List.mem_cons_self
      have hmiddle : middle.status? backend (.ofSettings settings) id = .ok (some status) := by
        refine (hrunEarlier.status_lasts hbackend hnames (fun moment hmem => hlawful moment
          (hmemEarlier hmem)) hstart fun moment hmem client operation result hreturn hwrite => ?_).1
        obtain ⟨i, rfl⟩ := hothers moment (hmemEarlier hmem) client operation result hreturn hwrite
        exact (hearlier moment hmem ⟨i, operation, result, hreturn⟩).elim
      cases hcall hmemFirst hwinner
      obtain ⟨found, account, -, -, houtcome, hstatus, haccount⟩ | ⟨hnot, -⟩ :=
        (hlawful _ hmemFirst).transition hbackend hnames hwinner
      · have hnext := System.status?_of_account? haccount
        rw [hstatus] at hnext
        obtain ⟨hlast, hlost⟩ := hlater.race_lost hbackend hnames
          (fun moment hmem => hlawful moment (hmemLater hmem)) (htarget winner).symm hnext
          fun moment hmem client operation result hreturn hwrite => by
            obtain ⟨i, rfl⟩ := hothers moment (hmemLater hmem) client operation result hreturn hwrite
            cases hcall (hmemLater hmem) hreturn
            exact ⟨target i, rfl⟩
        refine ⟨winner, ⟨account, houtcome, hstatus⟩, fun i hi => ?_, hlast⟩
        obtain ⟨moment, hmem, hreturn⟩ := hfound i
        simp only [List.mem_append, List.mem_cons] at hmem
        obtain hmem | rfl | hmem := hmem
        · exact (hearlier moment hmem ⟨i, _, _, hreturn⟩).elim
        · exact absurd (hracer _ _ (hreturn.client_eq hwinner)) hi
        · exact hlost moment hmem _ _ _ hreturn
      · exact absurd hmiddle hnot

/-- Between two transitions out of the same status the account is put with this status or moved into it. -/
theorem Run.moved_between {before between after : List (Moment ι)} {first second : Moment ι}
    (hrun : Run backend (.ofSettings settings) system (before ++ first :: (between ++ second :: after))
      last)
    (hlawful : ∀ moment ∈ before ++ first :: (between ++ second :: after),
      moment.Lawful backend settings)
    {id : String} {status next next' : AccountStatus} (hfirst : first.Moves id status next)
    (hne : next ≠ status) (hsecond : second.Moves id status next') :
    ∃ moment ∈ between,
      (∃ account, account.id = id ∧ account.status = status ∧ moment.Puts account) ∨
        ∃ previous, moment.Moves id previous status := by
  obtain ⟨_, -, hrunFirst⟩ := hrun.of_append
  cases hrunFirst with
  | cons hstepFirst hrest =>
      obtain ⟨_, hrunBetween, hrunSecond⟩ := hrest.of_append
      cases hrunSecond with
      | cons hstepSecond hrunAfter =>
          obtain ⟨client, account, hreturn⟩ := hfirst
          obtain ⟨client', account', hreturn'⟩ := hsecond
          obtain ⟨-, _, -, -, hok, hnext, hafter⟩ | ⟨-, hrefused⟩ :=
            (hlawful _ (by simp)).transition hbackend hnames hreturn
          · obtain ⟨found, -, hbefore, hfound, -⟩ | ⟨-, hrefused⟩ :=
              (hlawful _ (by simp)).transition hbackend hnames hreturn'
            · refine hrunBetween.moved_into hbackend hnames
                (fun moment hmem => hlawful moment (by simp [hmem])) ?_ ?_
              · rw [System.status?_of_account? hafter, hnext]
                exact fun hsame => hne (Option.some.inj (Except.ok.inj hsame))
              · exact (System.status?_of_account? hbefore).trans (congrArg (Except.ok ∘ some) hfound)
            · cases hrefused
          · cases hrefused

/-- No transition is lost and none is made twice, however the steps of any number of clients are
interleaved. A transition that succeeds finds the account in the status that it names and leaves it in the
next one. Nothing else changes the status but a put or a removal of the account. Between two transitions
out of the same status the account comes back to it. And of clients that race to move the account out of
the status that it has, exactly one succeeds. -/
theorem transition_once {earlier : List (Moment ι)}
    (hearlier : Run backend (.ofSettings settings) {} earlier system)
    (hrun : Run backend (.ofSettings settings) system moments last)
    (hread : ReadsBackThroughout backend (earlier ++ moments)) (id : String) :
    (∀ moment ∈ moments, ∀ client previous next account,
      moment.Returns client (.one (.editAccount id (.status previous next))) (.ok account) →
        (∃ found, moment.before.account? backend (.ofSettings settings) id = .ok (some found) ∧
          found.status = previous) ∧
        moment.after.account? backend (.ofSettings settings) id = .ok (some account) ∧
        account.status = next) ∧
    (∀ moment ∈ moments,
      moment.after.status? backend (.ofSettings settings) id ≠
          moment.before.status? backend (.ofSettings settings) id →
        (∃ account, account.id = id ∧ moment.Puts account) ∨ moment.Deletes id ∨
          ∃ previous next, moment.Moves id previous next) ∧
    (∀ before first between second after status next next',
      moments = before ++ first :: (between ++ second :: after) →
      first.Moves id status next → next ≠ status → second.Moves id status next' →
        ∃ moment ∈ between,
          (∃ account, account.id = id ∧ account.status = status ∧ moment.Puts account) ∨
            ∃ previous, moment.Moves id previous status) ∧
    (∀ (status : AccountStatus) (count : Nat) (racer : Fin count → ι)
      (target : Fin count → AccountStatus) (outcome : Fin count → Result Account),
      0 < count → (∀ i j, racer i = racer j → i = j) → (∀ i, target i ≠ status) →
      system.status? backend (.ofSettings settings) id = .ok (some status) →
      (∀ i, returns (racer i) moments =
        [⟨.one (.editAccount id (.status status (target i))), outcome i⟩]) →
      (∀ moment ∈ moments, ∀ client operation result,
        moment.Returns client operation result → operation.Writes id → ∃ i, client = racer i) →
        ∃ winner, (∃ account, outcome winner = .ok account ∧ account.status = target winner) ∧
          (∀ i, i ≠ winner → outcome i =
            .error (.rejected (Pool.accountStatusChange id status (target i)).rejection)) ∧
          last.status? backend (.ofSettings settings) id = .ok (some (target winner))) := by
  obtain ⟨-, hlawful⟩ := hearlier.lawful hrun (.initial backend settings) hbackend hnames hread
  refine ⟨?_, ?_, ?_, ?_⟩
  · intro moment hmem client previous next account hreturn
    obtain ⟨found, _, hfound, hstatus, hok, hnext, hafter⟩ | ⟨-, hrefused⟩ :=
      (hlawful moment hmem).transition hbackend hnames hreturn
    · cases hok
      exact ⟨⟨found, hfound, hstatus⟩, hafter, hnext⟩
    · cases hrefused
  · intro moment hmem hchanged
    exact (hlawful moment hmem).status_changed hbackend hnames hchanged
  · rintro before first between second after status next next' rfl hfirst hne hsecond
    exact hrun.moved_between hbackend hnames hlawful hfirst hne hsecond
  · intro status count racer target outcome hcount hracer htarget hstart hreturns hothers
    exact hrun.race hbackend hnames hlawful hcount hracer htarget hstart hreturns hothers

end Runs

/-- Two clients race to move an account that is ready, one to be leased and one to be withdrawn. -/
theorem transition_once_race :
    let pool := Pool.ofSettings {}
    let target (i : Fin 2) : AccountStatus := if i = 0 then .leased else .notReady
    let transition (i : Fin 2) : Operation := .one (.editAccount "1" (.status .ready (target i)))
    let race (system : System (Fin 2)) := system.play .memory pool
      [.start 0 (transition 0), .start 1 (transition 1), .act 0 5, .act 1 6, .act 1 7, .act 0 8]
    let system : System (Fin 2) := (System.play .memory pool {}
      [.start 0 (.one (.putAccount { id := "1", status := .ready })), .act 0 0, .finish 0]).2
    ∃ outcome : Fin 2 → Result Account,
      (∀ i, returns i (race system).1 = [⟨transition i, outcome i⟩]) ∧
      ∃ winner, (∃ account, outcome winner = .ok account ∧ account.status = target winner) ∧
        (∀ i, i ≠ winner → outcome i =
          .error (.rejected (Pool.accountStatusChange "1" .ready (target i)).rejection)) ∧
        (race system).2.status? .memory pool "1" = .ok (some (target winner)) := by
  intro pool target transition race system
  have hnames : ({} : PoolSettings).accountTable ≠ ({} : PoolSettings).leaseTable := by decide
  have hoccurs (system : System (Fin 2)) (hidle : system.tasks = fun _ => none) (i : Fin 2) :
      ∃ result, returns i (race system).1 = [⟨transition i, result⟩] := by
    obtain ⟨store, tasks⟩ := system
    obtain rfl := hidle
    match i with
    | 0 => exact ⟨_, rfl⟩
    | 1 => exact ⟨_, rfl⟩
  have hidle : system.tasks = fun _ => none := by
    funext client
    match client with
    | 0 => rfl
    | 1 => rfl
  have houtcome := hoccurs system hidle
  have htarget (i : Fin 2) : target i ≠ .ready := by
    match i with
    | 0 => decide
    | 1 => decide
  have hstart : system.status? .memory pool "1" = .ok (some .ready) := by
    have hready : (system.status? .memory pool "1").toOption = some (some .ready) := by decide +kernel
    cases hstatus : system.status? .memory pool "1" with
    | error error =>
        rw [hstatus] at hready
        cases hready
    | ok status =>
        rw [hstatus] at hready
        exact congrArg Except.ok (Option.some.inj hready)
  have harrival : Run .memory (.ofSettings {}) {} _ system := Run.play _ _
  have hrun : Run .memory (.ofSettings {}) system (race system).1 (race system).2 := Run.play _ _
  obtain ⟨-, -, -, hrace⟩ := transition_once .memory hnames harrival hrun
    (fun _ _ => ⟨Store.readsBack_memory _, Store.readsBack_memory _⟩) "1"
  refine ⟨fun i => (houtcome i).choose, fun i => (houtcome i).choose_spec, ?_⟩
  exact hrace .ready 2 (fun i => i) target _ (by decide) (fun _ _ hsame => hsame) htarget hstart
    (fun i => (houtcome i).choose_spec) fun _ _ client _ _ _ _ => ⟨client, rfl⟩

end AccountPool
