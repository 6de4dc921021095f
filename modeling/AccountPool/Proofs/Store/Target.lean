import AccountPool.Proofs.Store.Exchange
import AccountPool.Proofs.Store.Rows

/-!
# The row that a request is about

A get, a put, an update or a delete is about one row of one table: it reads the row, and if its condition
holds there it has its effect on this one row, `Backend.perform_eq_settle`. From this follow what the store
is after any request, `Backend.perform_store`, what the other rows are, `Backend.find?_perform_of_not`, and
that every row stays addressed by a key that suits its table, `Store.AddressedBy.perform`.
-/

namespace AccountPool

/-- The key of the row that a request reads or changes; a look-up of several rows has none. -/
def Request.target? : Request → Option Key
  | .get _ key | .update _ key _ _ | .delete _ key _ => some key
  | .put table record _ => (table.keyOf record).toOption
  | .query .. | .page .. => none

/-- The request is about a row of a table. -/
def Request.Addresses (backend : Backend) (request : Request) (name : String) (row : Key) : Prop :=
  request.table.name = name ∧ ∃ key, request.target? = some key ∧ backend.address key = row

/-- The condition under which a request is granted, if it names one. -/
def Request.condition? : Request → Option Condition
  | .put _ _ condition | .update _ _ _ condition | .delete _ _ condition => condition
  | .get .. | .query .. | .page .. => none

/-- The record that a put or an update makes of the record in its row. -/
def Request.made? : Request → Option Record → Option Record
  | .put _ record _, _ => some record
  | .update table key assignments _, current =>
      some ((current.getD (table.keyRecord key)).assign assignments)
  | .get .., _ | .delete .., _ | .query .., _ | .page .., _ => none

/-- The record that a put or an update has written when it gives a reply. -/
def Request.written? : (request : Request) → request.Reply → Option Record
  | .put _ record _, _ => some record
  | .update .., record => some record
  | .get .., _ | .delete .., _ | .query .., _ | .page .., _ => none

/-- What a request about a row does to the store if it is granted for the record there. -/
inductive Backend.Effect (backend : Backend) (store : Store) (request : Request) (key : Key)
    (current : Option Record) (reply : request.Reply) : Store → Prop where
  | keep (hwritten : request.written? reply = none) :
      Effect backend store request key current reply store
  | remove (hwritten : request.written? reply = none) :
      Effect backend store request key current reply
        (Backend.remove store request.table (backend.address key))
  | write (record : Record) (hmade : request.made? current = some record)
      (hwritten : request.written? reply = some record) :
      Effect backend store request key current reply
        (Backend.write store request.table (backend.address key) record)

namespace Backend

variable {backend : Backend} {store : Store} {request : Request} {key : Key}

/-- A request about a row reads it, checks its condition, and has its effect. -/
theorem perform_eq_settle (backend : Backend) (store : Store) (hkey : request.target? = some key) :
    ∃ (reply : Option Record → request.Reply) (next : Option Record → Store),
      (∀ current, backend.Effect store request key current (reply current) (next current)) ∧
      backend.perform store request =
        settle store (backend.guarded store request.table (backend.address key) request.condition? >>=
          fun current => pure (reply current, next current)) := by
  cases request with
  | get table key =>
      cases hkey
      refine ⟨fun current => current, fun _ => store, fun _ => .keep rfl, ?_⟩
      show (backend.read store table (backend.address key), store) =
        settle store (backend.guarded store table (backend.address key) none >>= _)
      unfold guarded
      cases backend.read store table (backend.address key) <;> rfl
  | put table record condition =>
      refine ⟨fun current => current, fun _ => write store table (backend.address key) record,
        fun _ => .write record rfl rfl, ?_⟩
      rw [Request.target?] at hkey
      cases hrecord : table.keyOf record with
      | error error =>
          rw [hrecord] at hkey
          cases hkey
      | ok found =>
          rw [hrecord] at hkey
          cases hkey
          simp only [perform, put, hrecord]
          rfl
  | update table key assignments condition =>
      cases hkey
      exact ⟨fun current => (current.getD (table.keyRecord key)).assign assignments, _,
        fun current => .write _ rfl rfl, rfl⟩
  | delete table key condition =>
      cases hkey
      exact ⟨fun current => current, fun _ => remove store table (backend.address key),
        fun _ => .remove rfl, rfl⟩
  | query | page => cases hkey

/-- A request that is about no row leaves the store as it is. -/
theorem perform_store_of_no_target (hnone : request.target? = none) :
    (backend.perform store request).2 = store := by
  cases request with
  | get | update | delete => cases hnone
  | query | page => rfl
  | put table record condition =>
      rw [Request.target?] at hnone
      cases hkey : table.keyOf record with
      | error error =>
          simp only [perform, put, hkey]
          rfl
      | ok key =>
          rw [hkey] at hnone
          cases hnone

/-- A request that gives a reply was granted for the record that is read from its row. -/
theorem exists_effect_of_read {reply : request.Reply} {next : Store} (hkey : request.target? = some key)
    (hperform : backend.perform store request = (.ok reply, next)) :
    ∃ current, backend.read store request.table (backend.address key) = .ok current ∧
      backend.Effect store request key current reply next := by
  obtain ⟨reply', next', heffect, hsettle⟩ := perform_eq_settle backend store hkey
  rw [hsettle] at hperform
  cases hguarded : backend.guarded store request.table (backend.address key) request.condition? with
  | error error =>
      rw [hguarded] at hperform
      cases hperform
  | ok current =>
      rw [hguarded] at hperform
      cases hperform
      exact ⟨current, read_of_guarded hguarded, heffect current⟩

/-- A request that gives a reply was granted for the record in its row. -/
theorem exists_effect {reply : request.Reply} {next : Store} (hkey : request.target? = some key)
    (hperform : backend.perform store request = (.ok reply, next)) :
    ∃ current, backend.Effect store request key current reply next := by
  obtain ⟨current, -, heffect⟩ := exists_effect_of_read hkey hperform
  exact ⟨current, heffect⟩

/-- A request that fails leaves the store as it is. -/
theorem perform_store_of_error {error : StoreError}
    (herror : (backend.perform store request).1 = .error error) :
    (backend.perform store request).2 = store := by
  cases hkey : request.target? with
  | none => exact perform_store_of_no_target hkey
  | some key =>
      obtain ⟨reply, next, -, hsettle⟩ := perform_eq_settle backend store hkey
      rw [hsettle] at herror ⊢
      cases hguarded : backend.guarded store request.table (backend.address key)
        request.condition? with
      | error error => rfl
      | ok current =>
          rw [hguarded] at herror
          cases herror

/-- A request leaves the store as it is, or writes or removes the row that it is about. -/
theorem perform_store (backend : Backend) (store : Store) (request : Request) :
    (backend.perform store request).2 = store ∨ ∃ key, request.target? = some key ∧
      ((∃ record, (backend.perform store request).2 =
        write store request.table (backend.address key) record) ∨
      (backend.perform store request).2 = remove store request.table (backend.address key)) := by
  cases hkey : request.target? with
  | none => exact .inl (perform_store_of_no_target hkey)
  | some key =>
      cases hperform : backend.perform store request with
      | mk answer next =>
      cases answer with
      | error error =>
          have hsame := perform_store_of_error (congrArg Prod.fst hperform)
          rw [hperform] at hsame
          exact .inl hsame
      | ok reply =>
          obtain ⟨current, heffect⟩ := exists_effect hkey hperform
          cases heffect with
          | keep => exact .inl rfl
          | remove => exact .inr ⟨key, rfl, .inr rfl⟩
          | write record => exact .inr ⟨key, rfl, .inl ⟨record, rfl⟩⟩

/-- A request leaves the rows alone that it is not about. -/
theorem find?_perform_of_not {name : String} {row : Key}
    (hother : ¬ request.Addresses backend name row) :
    ((backend.perform store request).2.rows name).find? row = (store.rows name).find? row := by
  have hne : ∀ key, request.target? = some key →
      ¬ (name = request.table.name ∧ row = backend.address key) :=
    fun key hkey hrow => hother ⟨hrow.1.symm, key, hkey, hrow.2.symm⟩
  obtain hsame | ⟨key, hkey, ⟨record, hwrite⟩ | hremove⟩ := perform_store backend store request
  · rw [hsame]
  · rw [hwrite, find?_write, if_neg (hne key hkey)]
  · rw [hremove, find?_remove, if_neg (hne key hkey)]

end Backend

/-! ## Keys of rows -/

/-- Every row is addressed by a key that suits its table. -/
def Store.AddressedBy (store : Store) (backend : Backend) (suits : String → Key → Prop) : Prop :=
  ∀ name row record, (store.rows name).find? row = some record →
    ∃ key, suits name key ∧ backend.address key = row

/-- An empty store has no rows. -/
theorem Store.addressedBy_empty (backend : Backend) (suits : String → Key → Prop) :
    ({} : Store).AddressedBy backend suits := by
  intro name row record hfind
  rw [rows_empty] at hfind
  cases hfind

/-- Keys that suit a table suit it under a wider notion. -/
theorem Store.AddressedBy.mono {backend : Backend} {store : Store} {suits wider : String → Key → Prop}
    (h : store.AddressedBy backend suits) (hsuits : ∀ name key, suits name key → wider name key) :
    store.AddressedBy backend wider := by
  intro name row record hfind
  obtain ⟨key, hkey, hrow⟩ := h name row record hfind
  exact ⟨key, hsuits name key hkey, hrow⟩

/-- Rows stay addressed by keys that suit their tables if the requests have such keys. -/
theorem Store.AddressedBy.perform {backend : Backend} {store : Store} {suits : String → Key → Prop}
    (h : store.AddressedBy backend suits) {request : Request}
    (htarget : ∀ key, request.target? = some key → suits request.table.name key) :
    (backend.perform store request).2.AddressedBy backend suits := by
  intro name row record hfind
  by_cases haddresses : request.Addresses backend name row
  · obtain ⟨rfl, key, hkey, hrow⟩ := haddresses
    exact ⟨key, htarget key hkey, hrow⟩
  · rw [Backend.find?_perform_of_not haddresses] at hfind
    exact h name row record hfind

end AccountPool
