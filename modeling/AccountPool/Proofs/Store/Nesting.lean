import AccountPool.Proofs.Json.Depth
import AccountPool.Proofs.Store.Target

/-!
# Records that are nested too deep

A database writes records of any depth and reads those of a limited one, and every get, put, update and
delete reads the row that it is about. So a record within the limit can be got back, and its row stays open
as long as nothing deeper is written: `Backend.serves_of_depth_le`. A deeper record can be neither got back
nor replaced nor removed, whatever else is asked of the store: `Backend.shuts_of_depth_gt`.
-/

namespace AccountPool

open Json (Value)

/-! ## Depths of records -/

namespace Record

/-- A record with a value in an attribute is deeper than the value. -/
theorem depth_lt_of_get? {record : Record} {name : String} {value : Value}
    (hget : record.get? name = some value) : value.depth < record.toValue.depth :=
  Value.depth_lt_ofMembers hget

/-- Setting attributes to values of less than a number of levels keeps a record within this number. -/
theorem depth_assign_le {record : Record} {assignments : Assignments} {limit : Nat}
    (h : record.toValue.depth ≤ limit)
    (hassign : ∀ assignment ∈ assignments, assignment.2.depth < limit) :
    (record.assign assignments).toValue.depth ≤ limit := by
  induction assignments generalizing record with
  | nil => exact h
  | cons assignment assignments ih =>
      obtain ⟨name, value⟩ := assignment
      have hvalue : value.depth < limit := hassign _ List.mem_cons_self
      obtain ⟨levels, rfl⟩ := Nat.exists_eq_add_one_of_ne_zero (Nat.ne_zero_of_lt hvalue)
      have hinsert : (record.insert name value).toValue.depth ≤ levels + 1 :=
        Value.depth_insert_le h (Nat.le_of_lt_succ hvalue)
      exact ih hinsert fun other hmem => hassign other (List.mem_cons_of_mem _ hmem)

end Record

/-- A record that holds a key and nothing else is flat. -/
theorem Table.depth_keyRecord_le (table : Table) (key : Key) :
    (table.keyRecord key).toValue.depth ≤ 1 := by
  have htext (record : Record) (name text : String) (h : record.toValue.depth ≤ 1) :
      (record.insert name (.string text)).toValue.depth ≤ 1 :=
    Value.depth_insert_le h (Nat.le_refl 0)
  unfold keyRecord
  dsimp only
  split
  · exact htext _ _ _ (htext _ _ _ (Nat.le_refl 1))
  · exact htext _ _ _ (Nat.le_refl 1)

/-! ## What a request does to its row -/

namespace Request

/-- The request makes no record deeper than a number of levels. -/
def Shallow (limit : Nat) : Request → Prop
  | put _ record _ => record.toValue.depth ≤ limit
  | update _ _ assignments _ => ∀ assignment ∈ assignments, assignment.2.depth < limit
  | get .. | delete .. | query .. | page .. => True

/-- What such a request makes of a record within the limit is within it, too. -/
theorem Shallow.depth_made_le {request : Request} {limit : Nat} (h : request.Shallow limit)
    (hpos : 0 < limit) {current : Option Record} {record : Record}
    (hcurrent : ∀ found, current = some found → found.toValue.depth ≤ limit)
    (hmade : request.made? current = some record) : record.toValue.depth ≤ limit := by
  cases request with
  | put =>
      cases hmade
      exact h
  | update table key assignments condition =>
      cases hmade
      refine Record.depth_assign_le ?_ h
      cases current with
      | none => exact Nat.le_trans (table.depth_keyRecord_le key) hpos
      | some found => exact hcurrent found rfl
  | get | delete | query | page => cases hmade

end Request

namespace Backend

variable {backend : Backend} {store : Store} {request : Request} {name : String} {row key : Key}

/-- A request whose row cannot be read fails and changes nothing. -/
theorem perform_of_unreadable {record : Record} {fault : Json.Fault}
    (hrow : (store.rows name).find? row = some record) (hfault : backend.reread record = .error fault)
    (haddresses : request.Addresses backend name row) :
    backend.perform store request = (.error (.unreadable fault), store) := by
  obtain ⟨rfl, key, hkey, rfl⟩ := haddresses
  obtain ⟨reply, next, -, hperform⟩ := perform_eq_settle backend store hkey
  have hread : backend.read store request.table (backend.address key) = .error (.unreadable fault) := by
    simp only [read, hrow, hfault]
    rfl
  rw [hperform, guarded, hread]
  rfl

/-- A request whose row can be read is granted if its condition holds for the record there. -/
theorem perform_of_readable {current : Option Record} (hkey : request.target? = some key)
    (hrow : (store.rows request.table.name).find? (backend.address key) = current)
    (hread : ∀ record, current = some record → backend.reread record = .ok record) :
    ∃ reply next, backend.Effect store request key current reply next ∧
      backend.perform store request =
        if Condition.allows request.condition? current then (.ok reply, next)
        else (.error (.conditionFailed request.table.name), store) := by
  obtain ⟨reply, next, heffect, hperform⟩ := perform_eq_settle backend store hkey
  refine ⟨reply current, next current, heffect current, ?_⟩
  have hcurrent : backend.read store request.table (backend.address key) = .ok current := by
    unfold read
    rw [hrow]
    cases current with
    | none => rfl
    | some record =>
        simp only [hread record rfl]
        rfl
  rw [hperform, guarded, hcurrent]
  simp only [bind, Except.bind]
  cases Condition.allows request.condition? current <;> rfl

/-- A record that a put or an update has written is in the row that the request was about. -/
theorem find?_of_written {reply : request.Reply} {next : Store} {record : Record}
    (hperform : backend.perform store request = (.ok reply, next))
    (hwritten : request.written? reply = some record) :
    ∃ key, request.target? = some key ∧
      (next.rows request.table.name).find? (backend.address key) = some record := by
  obtain ⟨key, hkey⟩ : ∃ key, request.target? = some key := by
    cases request with
    | put table found condition =>
        cases hrecord : table.keyOf found with
        | error error =>
            simp only [perform, put, hrecord] at hperform
            cases hperform
        | ok key => exact ⟨key, by rw [Request.target?, hrecord]; rfl⟩
    | update table key => exact ⟨key, rfl⟩
    | get | delete | query | page => cases hwritten
  refine ⟨key, hkey, ?_⟩
  obtain ⟨current, heffect⟩ := exists_effect hkey hperform
  cases heffect with
  | keep hnone | remove hnone =>
      rw [hnone] at hwritten
      cases hwritten
  | write found hmade hsome =>
      rw [hsome] at hwritten
      cases hwritten
      rw [find?_write, if_pos ⟨rfl, rfl⟩]

/-- The record that an update gives was made by its assignments. -/
theorem exists_assign {table : Table} {assignments : Assignments} {condition : Option Condition}
    {record : Record} {next : Store}
    (hperform : backend.perform store (.update table key assignments condition) = (.ok record, next)) :
    ∃ found : Record, record = found.assign assignments := by
  obtain ⟨current, heffect⟩ := exists_effect rfl hperform
  cases heffect with
  | keep hnone | remove hnone => cases hnone
  | write found hmade hsome =>
      cases hsome
      exact ⟨_, (Option.some.inj hmade).symm⟩

end Backend

/-! ## Readers with a limit -/

/-- Records of at most a number of levels are read as they were filed, and deeper ones are not read. -/
structure Backend.ReadsTo (backend : Backend) (limit : Nat) : Prop where
  shallow : ∀ record : Record, record.toValue.depth ≤ limit → backend.reread record = .ok record
  deep : ∀ record : Record, limit < record.toValue.depth → ∃ fault, backend.reread record = .error fault

/-- The record in a row, if there is one, has at most a number of levels. -/
def Store.RowWithin (store : Store) (limit : Nat) (name : String) (row : Key) : Prop :=
  ∀ record, (store.rows name).find? row = some record → record.toValue.depth ≤ limit

/-- An empty store has no record that is too deep. -/
theorem Store.rowWithin_empty (limit : Nat) (name : String) (row : Key) :
    ({} : Store).RowWithin limit name row := by
  intro record hfind
  rw [rows_empty] at hfind
  cases hfind

namespace Backend

variable {backend : Backend} {store : Store} {name : String} {row : Key} {limit : Nat}

section Within

variable (hreads : backend.ReadsTo limit)

include hreads

/-- Records within the limit are read as they were filed. -/
theorem readsBack_of_rowWithin (h : ∀ name row, store.RowWithin limit name row) :
    store.ReadsBack backend :=
  fun name row record hfind => hreads.shallow record (h name row record hfind)

/-- A request without condition gets a reply if the record in its row is within the limit. -/
theorem perform_of_rowWithin {request : Request} (h : store.RowWithin limit name row)
    (haddresses : request.Addresses backend name row) (hfree : request.condition? = none) :
    ∃ reply, (backend.perform store request).1 = .ok reply := by
  obtain ⟨rfl, key, hkey, rfl⟩ := haddresses
  obtain ⟨reply, next, -, hperform⟩ := perform_of_readable hkey rfl fun record hrecord =>
    hreads.shallow record (h record hrecord)
  rw [hperform, hfree]
  exact ⟨reply, rfl⟩

/-- A request that writes nothing too deep keeps every row within the limit. -/
theorem rowWithin_perform (hpos : 0 < limit) {request : Request} (hshallow : request.Shallow limit)
    (h : store.RowWithin limit name row) : (backend.perform store request).2.RowWithin limit name row := by
  by_cases haddresses : request.Addresses backend name row
  · obtain ⟨rfl, key, hkey, rfl⟩ := haddresses
    obtain ⟨reply, next, heffect, hperform⟩ := perform_of_readable hkey rfl fun record hrecord =>
      hreads.shallow record (h record hrecord)
    rw [hperform]
    split
    · intro found hfind
      cases heffect with
      | keep => exact h found hfind
      | remove =>
          rw [find?_remove, if_pos ⟨rfl, rfl⟩] at hfind
          cases hfind
      | write record hmade =>
          rw [find?_write, if_pos ⟨rfl, rfl⟩] at hfind
          cases hfind
          exact hshallow.depth_made_le hpos h hmade
    · exact h
  · unfold Store.RowWithin
    rw [find?_perform_of_not haddresses]
    exact h

/-- Requests that write nothing too deep keep every row within the limit. -/
theorem rowWithin_after (hpos : 0 < limit) {requests : List Request}
    (hshallow : ∀ request ∈ requests, request.Shallow limit) (h : store.RowWithin limit name row) :
    (backend.perform.after store requests).RowWithin limit name row :=
  backend.perform.after_induction (fun store => store.RowWithin limit name row)
    (fun request hmem _ hstore => rowWithin_perform hreads hpos (hshallow request hmem) hstore) h

end Within

/-- A record that cannot be read stays in its row whatever the store is asked for. -/
theorem find?_perform_of_unreadable {record : Record} {fault : Json.Fault}
    (hrow : (store.rows name).find? row = some record) (hfault : backend.reread record = .error fault)
    (request : Request) : ((backend.perform store request).2.rows name).find? row = some record := by
  by_cases haddresses : request.Addresses backend name row
  · rw [perform_of_unreadable hrow hfault haddresses]
    exact hrow
  · rw [find?_perform_of_not haddresses]
    exact hrow

/-- A record that cannot be read stays in its row throughout every run. -/
theorem find?_after_of_unreadable {record : Record} {fault : Json.Fault}
    (hrow : (store.rows name).find? row = some record) (hfault : backend.reread record = .error fault)
    (requests : List Request) :
    ((backend.perform.after store requests).rows name).find? row = some record :=
  backend.perform.after_induction (fun store => (store.rows name).find? row = some record)
    (fun request _ _ hstore => find?_perform_of_unreadable hstore hfault request) hrow

/-! ## Rows after a write -/

/-- A row gives its record back and stays open: after any run that writes nothing too deep, every request
about the row that names no condition gets a reply. -/
structure Serves (backend : Backend) (limit : Nat) (name : String) (row : Key) (record : Record)
    (store : Store) : Prop where
  get : ∀ (table : Table) (key : Key), table.name = name → backend.address key = row →
    (backend.perform store (.get table key)).1 = .ok (some record)
  stays : ∀ requests : List Request, (∀ request ∈ requests, request.Shallow limit) →
    ∀ request : Request, request.Addresses backend name row → request.condition? = none →
      ∃ reply, (backend.perform (backend.perform.after store requests) request).1 = .ok reply

/-- A row is shut: after any run, every request about it fails since its record cannot be read, and changes
nothing. -/
def Shuts (backend : Backend) (name : String) (row : Key) (fault : Json.Fault) (store : Store) : Prop :=
  ∀ (requests : List Request) (request : Request), request.Addresses backend name row →
    backend.perform (backend.perform.after store requests) request =
      (.error (.unreadable fault), backend.perform.after store requests)

/-- A record within the limit is given back, and its row stays open. -/
theorem serves_of_depth_le (hreads : backend.ReadsTo limit) (hpos : 0 < limit) {record : Record}
    (hrow : (store.rows name).find? row = some record) (hdepth : record.toValue.depth ≤ limit) :
    backend.Serves limit name row record store where
  get := by
    rintro table key rfl rfl
    exact read_of_find? hrow (hreads.shallow record hdepth)
  stays := by
    intro requests hshallow request haddresses hfree
    have hwithin : store.RowWithin limit name row := by
      intro found hfound
      rw [hrow] at hfound
      cases hfound
      exact hdepth
    exact perform_of_rowWithin hreads (rowWithin_after hreads hpos hshallow hwithin) haddresses hfree

/-- A record beyond the limit shuts its row. -/
theorem shuts_of_depth_gt (hreads : backend.ReadsTo limit) {record : Record}
    (hrow : (store.rows name).find? row = some record) (hdepth : limit < record.toValue.depth) :
    ∃ fault, backend.Shuts name row fault store := by
  obtain ⟨fault, hfault⟩ := hreads.deep record hdepth
  refine ⟨fault, fun requests request haddresses => ?_⟩
  exact perform_of_unreadable (find?_after_of_unreadable hrow hfault requests) hfault haddresses

end Backend

end AccountPool
