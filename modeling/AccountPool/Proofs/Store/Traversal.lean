import AccountPool.Proofs.Store.Drain
import AccountPool.Proofs.Store.Target

/-!
# Scans between writes

Anything may be sent to the store between two items of a scan. `OpenScan.Sound` says how far a scan has come
then: what it has fetched and not handed out is in its buffer, it resumes after the last row that it has
fetched, and a row that was there whenever a page was fetched was fetched or is still to come. From this
follow that no row is lost or handed out twice, `OpenScan.exact_of_visits`, and that the scan ends when the
store is left alone.
-/

namespace AccountPool

open Scan (Item)

/-! ## The next item -/

namespace Scan

variable {backend : Backend} {store : Store} {table : Table} {scan : Scan}

/-- The item that is handed out of a buffer. -/
def Item.first : List Record → Item
  | [] => .finished
  | found :: _ => .record found

/-- The rows of the page that is asked for before the next item is handed out. -/
def fetched (backend : Backend) (store : Store) (table : Table) (scan : Scan) : List (Key × Record) :=
  if scan.fetches then backend.pageRows store table scan.pageSize scan.start else []

/-- The scan from whose buffer the next item is handed out. -/
def filled (backend : Backend) (store : Store) (table : Table) (scan : Scan) : Scan :=
  if scan.fetches then
    scan.refilled backend store table ((scan.fetched backend store table).map Prod.snd)
  else scan

/-- The records of the rows that are fetched are put into the buffer. -/
theorem buffer_filled : (scan.filled backend store table).buffer =
    scan.buffer ++ (scan.fetched backend store table).map Prod.snd := by
  unfold filled fetched
  split
  · next hfetches =>
      rw [(fetches_iff.1 hfetches).1, List.nil_append]
      rfl
  · simp

/-- The rows that are fetched are rows of the table. -/
theorem mem_of_mem_fetched {row : Key × Record} (hmem : row ∈ scan.fetched backend store table) :
    row ∈ (store.rows table.name).entries := by
  unfold fetched at hmem
  split at hmem
  · exact Backend.mem_of_mem_pageRows hmem
  · cases hmem

/-- A scan whose buffer is empty although it might have asked for a page is exhausted. -/
theorem exhausted_of_filled (hempty : (scan.filled backend store table).buffer = []) :
    (scan.filled backend store table).exhausted = true := by
  rw [buffer_filled, List.append_eq_nil_iff, List.map_eq_nil_iff] at hempty
  unfold filled
  split
  · next hfetches =>
      have hrows := hempty.2
      rw [fetched, if_pos hfetches] at hrows
      -- A page without rows is not full, so it names no key.
      have hlast : backend.pageLast store table scan.pageSize scan.start = none := by
        rw [Backend.pageLast, hrows]
        simp
      simp [refilled, hlast]
  · next hquiet =>
      cases hexhausted : scan.exhausted with
      | true => rfl
      | false => exact absurd (fetches_iff.2 ⟨hempty.1, hexhausted⟩) hquiet

/-- A scan that need not ask for a page hands out the first record of its buffer, or the end. -/
theorem next_of_stocked {σ : Type} {fetch : Fetch σ} {state : σ}
    (hstocked : scan.buffer = [] → scan.exhausted = true) (fuel : Nat) :
    scan.next fetch (fuel + 1) state =
      (some (.first scan.buffer), { scan with buffer := scan.buffer.tail }, state) := by
  obtain ⟨pageSize, start, buffer, exhausted⟩ := scan
  cases buffer with
  | nil =>
      rw [next, step_of_exhausted rfl (hstocked rfl)]
      rfl
  | cons record buffer =>
      rw [next, step_of_buffer rfl]
      rfl

/-- The next item is the first one of the buffer, after a page was read if there is need of one. -/
theorem next_eq (hread : store.ReadsBack backend) (fuel : Nat) :
    scan.next (.ofEngine backend.perform table) (fuel + 2) store =
      (some (.first (scan.filled backend store table).buffer),
        { scan.filled backend store table with
          buffer := (scan.filled backend store table).buffer.tail }, store) := by
  cases hfetches : scan.fetches with
  | false =>
      have hsame : scan.filled backend store table = scan := by simp [filled, hfetches]
      have hstocked : (scan.filled backend store table).buffer = [] →
          (scan.filled backend store table).exhausted = true := exhausted_of_filled
      rw [hsame] at hstocked ⊢
      exact next_of_stocked hstocked (fuel + 1)
  | true =>
      obtain ⟨hempty, hexhausted⟩ := fetches_iff.1 hfetches
      have hfilled : scan.filled backend store table =
          scan.refilled backend store table
            ((backend.pageRows store table scan.pageSize scan.start).map Prod.snd) := by
        simp [filled, fetched, hfetches]
      rw [next, step_of_page hempty hexhausted,
        Backend.readAll_eq hread fun row => Backend.mem_of_mem_pageRows]
      simp only [← hfilled]
      exact next_of_stocked exhausted_of_filled fuel

/-- What is in the buffer and what remains are the same after a page was read. -/
theorem buffer_append_remaining
    (hlead : ∀ row ∈ (store.rows table.name).entries, backend.LeadsBack table row.1) :
    scan.buffer ++ (scan.remaining backend store table).map Prod.snd =
      (scan.filled backend store table).buffer ++
        ((scan.filled backend store table).remaining backend store table).map Prod.snd := by
  rw [buffer_filled]
  unfold filled
  split
  · next hfetches =>
      have hrows : scan.fetched backend store table =
          backend.pageRows store table scan.pageSize scan.start := by simp [fetched, hfetches]
      rw [remaining_eq_append hlead (fetches_iff.1 hfetches).2
        ((scan.fetched backend store table).map Prod.snd), ← hrows]
      simp
  · next hquiet => simp [fetched, hquiet]

end Scan

/-! ## Turns -/

/-- What happens next while a scan is under way. -/
inductive Turn where
  /-- The scan is asked for its next item. -/
  | next
  /-- A request is sent to the store. -/
  | send (request : Request)

/-- A scan that is under way, with the store that it goes through. -/
structure OpenScan where
  scan : Scan
  store : Store

/-- A turn with the scan and the store before it, and what is handed out. -/
structure Visit where
  before : OpenScan
  turn : Turn
  item? : Option Item

/-- A row that was fetched, with the store that it was fetched from and the record that it had there. -/
structure Fetched where
  store : Store
  row : Key
  record : Record

/-- What one turn does: what is handed out, and the scan and the store after it. -/
def OpenScan.turn (backend : Backend) (table : Table) (fuel : Nat) (opened : OpenScan) :
    Turn → Option Item × OpenScan
  | .next =>
      let (item?, scan, store) :=
        opened.scan.next (.ofEngine backend.perform table) fuel opened.store
      (item?, ⟨scan, store⟩)
  | .send request => (none, { opened with store := (backend.perform opened.store request).2 })

/-- The turns of a run, one after the other. -/
def OpenScan.visits (backend : Backend) (table : Table) (fuel : Nat) (opened : OpenScan) :
    List Turn → List Visit
  | [] => []
  | turn :: turns =>
      let (item?, next) := opened.turn backend table fuel turn
      ⟨opened, turn, item?⟩ :: next.visits backend table fuel turns

/-- The scan and the store after a run. -/
def OpenScan.after (backend : Backend) (table : Table) (fuel : Nat) (opened : OpenScan) :
    List Turn → OpenScan
  | [] => opened
  | turn :: turns => (opened.turn backend table fuel turn).2.after backend table fuel turns

namespace Visit

/-- A page is fetched in this turn. -/
def Fetches (visit : Visit) : Prop :=
  visit.turn = .next ∧ visit.before.scan.fetches

/-- The rows that are fetched in this turn. -/
def fetched (backend : Backend) (table : Table) (visit : Visit) : List Fetched :=
  match visit.turn with
  | .next => (visit.before.scan.fetched backend visit.before.store table).map fun row =>
      ⟨visit.before.store, row.1, row.2⟩
  | .send _ => []

/-- The record that is handed out in this turn. -/
def record? (visit : Visit) : Option Record :=
  match visit.item? with
  | some (.record record) => some record
  | _ => none

end Visit

/-- The rows that a run fetched. -/
def fetchedRows (backend : Backend) (table : Table) (visits : List Visit) : List Fetched :=
  visits.flatMap (Visit.fetched backend table)

/-- The records that a run handed out. -/
def handedOut (visits : List Visit) : List Record :=
  visits.filterMap Visit.record?

/-- The rows behind the records that a run handed out: those that it fetched first, for records are handed
out in the order in which their rows were fetched. -/
def yielded (backend : Backend) (table : Table) (visits : List Visit) : List Fetched :=
  (fetchedRows backend table visits).take (handedOut visits).length

/-! ## Where scans lose and repeat nothing -/

/-- A scan of the table finds its way in this store. In memory it always does. In a database the texts must
be read back as they were filed, and either the table has a sort attribute or no row has a sort value. -/
inductive Backend.Scannable (table : Table) (store : Store) : Backend → Prop where
  | memory : Scannable table store .memory
  | sorted {reread candidate} : store.ReadsBack (.databaseWith reread candidate) →
      table.sort.isSome → Scannable table store (.databaseWith reread candidate)
  | plain {reread candidate} : store.ReadsBack (.databaseWith reread candidate) →
      (∀ row record, (store.rows table.name).find? row = some record → row.sort = some "") →
      Scannable table store (.databaseWith reread candidate)

namespace Backend.Scannable

variable {backend : Backend} {table : Table} {store : Store}

/-- The records are read as they were filed. -/
theorem readsBack (h : backend.Scannable table store) : store.ReadsBack backend := by
  cases h with
  | memory => exact store.readsBack_memory
  | sorted hread | plain hread => exact hread

/-- Every row is addressed by the key that is shown for it. -/
theorem leadsBack (h : backend.Scannable table store)
    (haddressed : store.AddressedBy backend fun _ _ => True) :
    ∀ row ∈ (store.rows table.name).entries, backend.LeadsBack table row.1 := by
  intro row hmem
  have hfind := SortedMap.mem_entries_iff.1 hmem
  cases h with
  | memory => exact leadsBack_memory table row.1
  | sorted hread hsort =>
      obtain ⟨key, -, hkey⟩ := haddressed table.name row.1 row.2 hfind
      refine leadsBack_databaseWith.2 (.inl ⟨hsort, ?_⟩)
      rw [← hkey]
      rfl
  | plain hread hempty => exact leadsBack_databaseWith.2 (.inr (hempty row.1 row.2 hfind))

end Backend.Scannable

/-! ## The invariant -/

/-- How far a scan has come after a run. -/
structure OpenScan.Sound (backend : Backend) (table : Table) (visits : List Visit) (opened : OpenScan) :
    Prop where
  /-- What was fetched was handed out or is in the buffer. -/
  buffered : (fetchedRows backend table visits).map Fetched.record =
    handedOut visits ++ opened.scan.buffer
  /-- The rows were fetched in the order of their keys. -/
  increasing : (fetchedRows backend table visits).Pairwise fun earlier later =>
    compare earlier.row later.row = .lt
  /-- The scan resumes after the last row that was fetched. -/
  resumes : opened.scan.exhausted = false → opened.scan.start.map backend.address =
    (fetchedRows backend table visits).getLast?.map Fetched.row
  /-- A row that was there whenever a page was fetched was fetched, or comes after the key to resume
  after. -/
  covers : ∀ row, (∀ visit ∈ visits, visit.Fetches →
      (visit.before.store.rows table.name).contains row) →
    row ∈ (fetchedRows backend table visits).map Fetched.row ∨
      (opened.scan.exhausted = false ∧ ∀ start ∈ opened.scan.start,
        compare (backend.address start) row = .lt)
  /-- The scan hands out records until it is over. -/
  items : ∀ visit ∈ visits, visit.turn = .next →
    (∃ record, visit.item? = some (.record record)) ∨ visit.item? = some .finished
  /-- A scan that is over has nothing left to do. -/
  ended : ∀ visit ∈ visits, visit.item? = some .finished →
    opened.scan.exhausted = true ∧ opened.scan.buffer = []
  /-- Every row is addressed by a key. -/
  addressed : opened.store.AddressedBy backend fun _ _ => True

namespace OpenScan

variable {backend : Backend} {table : Table} {fuel : Nat} {visits : List Visit} {opened : OpenScan}

/-- A scan that has not started has fetched nothing. -/
theorem Sound.begin (backend : Backend) (table : Table) (pageSize : Nat) :
    Sound backend table [] ⟨.begin pageSize, {}⟩ where
  buffered := rfl
  increasing := .nil
  resumes _ := rfl
  covers row _ := .inr ⟨rfl, by rintro start ⟨⟩⟩
  items visit hmem := by cases hmem
  ended visit hmem := by cases hmem
  addressed := Store.addressedBy_empty backend _

/-- A request to the store fetches nothing. -/
theorem fetchedRows_send (visits : List Visit) (opened : OpenScan) (request : Request)
    (item? : Option Item) :
    fetchedRows backend table (visits ++ [⟨opened, .send request, item?⟩]) =
      fetchedRows backend table visits := by
  simp [fetchedRows, Visit.fetched]

/-- The scan fetches a page if it must. -/
theorem fetchedRows_next (visits : List Visit) (opened : OpenScan) (item? : Option Item) :
    fetchedRows backend table (visits ++ [⟨opened, .next, item?⟩]) =
      fetchedRows backend table visits ++
        (opened.scan.fetched backend opened.store table).map fun row =>
          ⟨opened.store, row.1, row.2⟩ := by
  simp [fetchedRows, Visit.fetched]

/-- The first record of a buffer is handed out. -/
theorem handedOut_append_first (visits : List Visit) (opened : OpenScan) (turn : Turn)
    (buffer : List Record) :
    handedOut (visits ++ [⟨opened, turn, some (.first buffer)⟩]) ++ buffer.tail =
      handedOut visits ++ buffer := by
  cases buffer <;> simp [handedOut, Visit.record?, Item.first]

namespace Sound

/-- A request to the store leaves the scan where it is. -/
theorem send (h : Sound backend table visits opened) (request : Request) :
    Sound backend table (visits ++ [⟨opened, .send request, none⟩])
      { opened with store := (backend.perform opened.store request).2 } where
  buffered := by
    rw [fetchedRows_send, h.buffered]
    simp [handedOut, Visit.record?]
  increasing := by
    rw [fetchedRows_send]
    exact h.increasing
  resumes := by
    rw [fetchedRows_send]
    exact h.resumes
  covers row hpresent := by
    rw [fetchedRows_send]
    exact h.covers row fun visit hmem => hpresent visit (List.mem_append_left _ hmem)
  items := List.forall_mem_append.2 ⟨h.items, List.forall_mem_singleton.2 nofun⟩
  ended := List.forall_mem_append.2 ⟨h.ended, List.forall_mem_singleton.2 nofun⟩
  addressed := h.addressed.perform fun _ _ => trivial

/-- What comes after the key to resume after comes after all rows that were fetched. -/
theorem lt_of_mem_rowsAfter (h : Sound backend table visits opened)
    (hgoes : opened.scan.exhausted = false) {earlier : Fetched}
    (hearlier : earlier ∈ fetchedRows backend table visits) {store : Store} {row : Key × Record}
    (hrow : row ∈ backend.rowsAfter store table opened.scan.start) :
    compare earlier.row row.1 = .lt := by
  have hresumes := h.resumes hgoes
  cases hlast : (fetchedRows backend table visits).getLast? with
  | none =>
      rw [List.getLast?_eq_none_iff.1 hlast] at hearlier
      cases hearlier
  | some last =>
      rw [hlast, Option.map_some] at hresumes
      rw [Backend.rowsAfter, hresumes] at hrow
      have hlater := (SortedMap.mem_after_some.1 hrow).2
      obtain rfl | hlt := eq_or_rel_of_getLast? h.increasing hlast hearlier
      · exact hlater
      · exact Std.TransCmp.lt_trans hlt hlater

/-- The rows that are fetched come after those that were fetched before. -/
theorem increasing_next (h : Sound backend table visits opened) (item? : Option Item) :
    (fetchedRows backend table (visits ++ [⟨opened, .next, item?⟩])).Pairwise fun earlier later =>
      compare earlier.row later.row = .lt := by
  rw [fetchedRows_next]
  unfold Scan.fetched
  split
  · next hfetches =>
      refine List.pairwise_append.2 ⟨h.increasing, ?_, ?_⟩
      · exact List.pairwise_map.2 ((SortedMap.pairwise_after _ _).sublist (List.take_sublist _ _))
      · intro earlier hearlier later hlater
        obtain ⟨row, hrow, rfl⟩ := List.mem_map.1 hlater
        exact h.lt_of_mem_rowsAfter (Scan.fetches_iff.1 hfetches).2 hearlier (List.mem_of_mem_take hrow)
  · rw [List.map_nil, List.append_nil]
    exact h.increasing

/-- A page that names a key names that of the last row that was fetched. -/
theorem resumes_next (h : Sound backend table visits opened)
    (hlead : ∀ row ∈ (opened.store.rows table.name).entries, backend.LeadsBack table row.1)
    (item? : Option Item)
    (hgoes : (opened.scan.filled backend opened.store table).exhausted = false) :
    (opened.scan.filled backend opened.store table).start.map backend.address =
      (fetchedRows backend table (visits ++ [⟨opened, .next, item?⟩])).getLast?.map Fetched.row := by
  rw [fetchedRows_next]
  unfold Scan.filled at hgoes ⊢
  unfold Scan.fetched
  split
  · next hfetches =>
      rw [if_pos hfetches] at hgoes
      cases hlast : backend.pageLast opened.store table opened.scan.pageSize opened.scan.start with
      | none => simp [Scan.refilled, hlast] at hgoes
      | some key =>
          obtain ⟨-, row, hrow, hkey⟩ := Backend.pageLast_eq_some.1 hlast
          have hback := hlead row (Backend.mem_of_mem_pageRows (List.mem_of_getLast? hrow))
          rw [Backend.LeadsBack, hkey] at hback
          simp [Scan.refilled, hlast, hrow, hback, List.getLast?_append]
  · next hquiet =>
      rw [if_neg hquiet] at hgoes
      rw [List.map_nil, List.append_nil]
      exact h.resumes hgoes

/-- A row that is there when a page is fetched is on the page or comes after it, unless it was fetched
before. -/
theorem covers_next (h : Sound backend table visits opened)
    (hlead : ∀ row ∈ (opened.store.rows table.name).entries, backend.LeadsBack table row.1)
    (item? : Option Item) (row : Key)
    (hpresent : ∀ visit ∈ visits ++ [⟨opened, .next, item?⟩], visit.Fetches →
      (visit.before.store.rows table.name).contains row) :
    row ∈ (fetchedRows backend table (visits ++ [⟨opened, .next, item?⟩])).map Fetched.row ∨
      ((opened.scan.filled backend opened.store table).exhausted = false ∧
        ∀ start ∈ (opened.scan.filled backend opened.store table).start,
          compare (backend.address start) row = .lt) := by
  have hearlier := h.covers row fun visit hmem => hpresent visit (List.mem_append_left _ hmem)
  rw [fetchedRows_next, List.map_append, List.mem_append]
  unfold Scan.filled Scan.fetched
  split
  · next hfetches =>
      obtain hfetched | ⟨hgoes, hstart⟩ := hearlier
      · exact .inl (.inl hfetched)
      have hthere := hpresent ⟨opened, .next, item?⟩ (by simp) ⟨rfl, hfetches⟩
      obtain ⟨record, hrecord⟩ := Option.isSome_iff_exists.1 hthere
      have hmem := SortedMap.mem_entries_iff.2 hrecord
      have hafter : (row, record) ∈ backend.rowsAfter opened.store table opened.scan.start := by
        rw [Backend.rowsAfter]
        cases hkey : opened.scan.start with
        | none => exact hmem
        | some start => exact SortedMap.mem_after_some.2 ⟨hmem, hstart start hkey⟩
      rw [Backend.rowsAfter_eq_append hlead opened.scan.pageSize, List.mem_append] at hafter
      obtain hpage | hlater := hafter
      · refine .inl (.inr ?_)
        rw [List.map_map]
        exact List.mem_map.2 ⟨_, hpage, rfl⟩
      · cases hlast : backend.pageLast opened.store table opened.scan.pageSize opened.scan.start with
        | none => simp [hlast] at hlater
        | some key =>
            rw [hlast, Option.isNone_some, if_neg Bool.false_ne_true] at hlater
            refine .inr ⟨by simp [Scan.refilled, hlast], ?_⟩
            intro start hstart
            rw [Scan.refilled, hlast] at hstart
            obtain rfl := Option.some.inj hstart
            exact (SortedMap.mem_after_some.1 hlater).2
  · exact hearlier.imp .inl id

/-- A scan that is asked for its next item stays sound. -/
theorem next (h : Sound backend table visits opened)
    (hscannable : backend.Scannable table opened.store) (fuel : Nat) :
    Sound backend table
      (visits ++ [⟨opened, .next, (opened.turn backend table (fuel + 2) .next).1⟩])
      (opened.turn backend table (fuel + 2) .next).2 := by
  have hread := hscannable.readsBack
  have hlead := hscannable.leadsBack h.addressed
  rw [turn, Scan.next_eq hread]
  exact {
    buffered := by
      rw [handedOut_append_first, Scan.buffer_filled, fetchedRows_next, List.map_append, h.buffered,
        List.map_map, List.append_assoc]
      rfl
    increasing := h.increasing_next _
    resumes := h.resumes_next hlead _
    covers := h.covers_next hlead _
    items := by
      refine List.forall_mem_append.2 ⟨h.items, List.forall_mem_singleton.2 fun _ => ?_⟩
      cases (opened.scan.filled backend opened.store table).buffer with
      | nil => exact .inr rfl
      | cons record buffer => exact .inl ⟨record, rfl⟩
    ended := by
      refine List.forall_mem_append.2 ⟨fun visit hmem hitem => ?_,
        List.forall_mem_singleton.2 fun hitem => ?_⟩
      · obtain ⟨hexhausted, hempty⟩ := h.ended visit hmem hitem
        have hquiet : opened.scan.fetches = false := by simp [Scan.fetches, hexhausted]
        simp [Scan.filled, hquiet, hexhausted, hempty]
      · cases hbuffer : (opened.scan.filled backend opened.store table).buffer with
        | nil => exact ⟨Scan.exhausted_of_filled hbuffer, rfl⟩
        | cons record buffer =>
            rw [hbuffer] at hitem
            cases hitem
    addressed := h.addressed }

/-- Every turn keeps the scan sound. -/
theorem turn (h : Sound backend table visits opened)
    (hscannable : backend.Scannable table opened.store) (fuel : Nat) (turn : Turn) :
    Sound backend table
      (visits ++ [⟨opened, turn, (opened.turn backend table (fuel + 2) turn).1⟩])
      (opened.turn backend table (fuel + 2) turn).2 := by
  cases turn with
  | next => exact h.next hscannable fuel
  | send request => exact h.send request

/-- Every run keeps the scan sound. -/
theorem run (h : Sound backend table visits opened) (fuel : Nat) {turns : List Turn}
    (hscannable : ∀ before, before <+: turns →
      backend.Scannable table (opened.after backend table (fuel + 2) before).store) :
    Sound backend table (visits ++ opened.visits backend table (fuel + 2) turns)
      (opened.after backend table (fuel + 2) turns) := by
  induction turns generalizing visits opened with
  | nil =>
      rw [OpenScan.visits, List.append_nil]
      exact h
  | cons turn turns ih =>
      have hnext := h.turn (hscannable [] List.nil_prefix) fuel turn
      have hrest := ih hnext fun before hbefore => hscannable (turn :: before)
        (List.prefix_cons_iff.2 (.inr ⟨before, rfl, hbefore⟩))
      rw [List.append_assoc] at hrest
      exact hrest

end Sound

end OpenScan

/-! ## What a run hands out -/

/-- A run of a scan loses and repeats nothing. -/
structure Exact (backend : Backend) (table : Table) (visits : List Visit) : Prop where
  /-- Whenever the scan is asked, it hands out a record or is over. -/
  items : ∀ visit ∈ visits, visit.turn = .next →
    (∃ record, visit.item? = some (.record record)) ∨ visit.item? = some .finished
  /-- The records are those of the rows behind them. -/
  records : (yielded backend table visits).map Fetched.record = handedOut visits
  /-- The keys of the rows increase, so no row is repeated. -/
  increasing : (yielded backend table visits).Pairwise fun earlier later =>
    compare earlier.row later.row = .lt
  /-- Each record was that of its row in the store when its page was fetched. -/
  live : ∀ fetched ∈ yielded backend table visits,
    (fetched.store.rows table.name).find? fetched.row = some fetched.record ∧
      ∃ visit ∈ visits, visit.Fetches ∧ visit.before.store = fetched.store
  /-- When the scan is over, a row that was there whenever a page was fetched has been handed out once. -/
  complete : (∃ visit ∈ visits, visit.item? = some .finished) →
    ∀ row, (∀ visit ∈ visits, visit.Fetches → (visit.before.store.rows table.name).contains row) →
      ((yielded backend table visits).map Fetched.row).count row = 1

namespace OpenScan

variable {backend : Backend} {table : Table} {fuel : Nat} {visits : List Visit} {opened : OpenScan}

/-- A row was fetched in a turn in which a page was fetched, with the record that it had then. -/
theorem live_of_mem_fetchedRows {fetched : Fetched}
    (hmem : fetched ∈ fetchedRows backend table visits) :
    (fetched.store.rows table.name).find? fetched.row = some fetched.record ∧
      ∃ visit ∈ visits, visit.Fetches ∧ visit.before.store = fetched.store := by
  obtain ⟨visit, hvisit, hfetched⟩ := List.mem_flatMap.1 hmem
  unfold Visit.fetched at hfetched
  split at hfetched
  · next hturn =>
      obtain ⟨row, hrow, rfl⟩ := List.mem_map.1 hfetched
      refine ⟨SortedMap.mem_entries_iff.1 (Scan.mem_of_mem_fetched hrow), visit, hvisit, ⟨hturn, ?_⟩, rfl⟩
      cases hfetches : visit.before.scan.fetches with
      | true => rfl
      | false => simp [Scan.fetched, hfetches] at hrow
  · cases hfetched

/-- A sound scan loses and repeats nothing. -/
theorem Sound.exact (h : Sound backend table visits opened) : Exact backend table visits where
  items := h.items
  records := by
    rw [yielded, List.map_take, h.buffered, List.take_left]
  increasing := h.increasing.sublist (List.take_sublist _ _)
  live fetched hmem := live_of_mem_fetchedRows (List.mem_of_mem_take hmem)
  complete hfinished row hpresent := by
    obtain ⟨visit, hmem, hitem⟩ := hfinished
    obtain ⟨hexhausted, hempty⟩ := h.ended visit hmem hitem
    -- All that was fetched was handed out.
    have hall : yielded backend table visits = fetchedRows backend table visits := by
      have hlength := congrArg List.length h.buffered
      rw [hempty, List.append_nil, List.length_map] at hlength
      rw [yielded, ← hlength, List.take_length]
    have hrow : row ∈ (fetchedRows backend table visits).map Fetched.row := by
      obtain hfetched | ⟨hgoes, -⟩ := h.covers row hpresent
      · exact hfetched
      · rw [hexhausted] at hgoes
        cases hgoes
    have hnodup := nodup_of_increasing h.increasing
    rw [hall, hnodup.count, if_pos hrow]

/-- The records that a scan has yet to hand out if the store is left alone. -/
def pending (backend : Backend) (table : Table) (opened : OpenScan) : List Record :=
  opened.scan.buffer ++ (opened.scan.remaining backend opened.store table).map Prod.snd

/-- Before the scan starts, the records of all rows are to be handed out. -/
theorem pending_begin (pageSize : Nat) (store : Store) :
    pending backend table ⟨.begin pageSize, store⟩ =
      (store.rows table.name).entries.map Prod.snd :=
  rfl

section Undisturbed

variable (hread : opened.store.ReadsBack backend)
  (hlead : ∀ row ∈ (opened.store.rows table.name).entries, backend.LeadsBack table row.1)

include hread hlead

/-- The next item is the first of the records that are to be handed out, and the others are left. -/
theorem turn_next (fuel : Nat) :
    ∃ scan, opened.turn backend table (fuel + 2) .next =
        (some (.first (opened.pending backend table)), ⟨scan, opened.store⟩) ∧
      pending backend table ⟨scan, opened.store⟩ = (opened.pending backend table).tail := by
  let filled := opened.scan.filled backend opened.store table
  have hpending : opened.pending backend table =
      filled.buffer ++ (filled.remaining backend opened.store table).map Prod.snd :=
    Scan.buffer_append_remaining hlead
  refine ⟨{ filled with buffer := filled.buffer.tail }, ?_⟩
  rw [turn, Scan.next_eq hread, hpending]
  cases hbuffer : filled.buffer with
  | cons record buffer => exact ⟨rfl, rfl⟩
  | nil =>
      have hover : filled.remaining backend opened.store table = [] :=
        Scan.remaining_of_exhausted (Scan.exhausted_of_filled hbuffer)
      rw [hover]
      refine ⟨rfl, ?_⟩
      show (filled.remaining backend opened.store table).map Prod.snd = []
      rw [hover, List.map_nil]

/-- A scan that is asked again and again hands out these records, and then it is over. -/
theorem items_eq_pending (fuel count : Nat) :
    (opened.visits backend table (fuel + 2) (.replicate count .next)).map Visit.item? =
      ((opened.pending backend table).take count).map (fun record => some (Item.record record)) ++
        .replicate (count - (opened.pending backend table).length) (some .finished) := by
  induction count generalizing opened with
  | zero =>
      rw [Nat.zero_sub]
      rfl
  | succ count ih =>
      obtain ⟨scan, hturn, hpending⟩ := turn_next hread hlead fuel
      have hrest := @ih ⟨scan, opened.store⟩ hread hlead
      rw [List.replicate_succ, OpenScan.visits, hturn]
      simp only [List.map_cons, hrest, hpending]
      cases opened.pending backend table with
      | nil => simp [Item.first, List.replicate_succ]
      | cons record records => simp [Item.first]

end Undisturbed

/-- A run without items leaves the scan as it was begun. -/
theorem scan_after_of_sends {turns : List Turn} (hsends : ∀ turn ∈ turns, turn ≠ .next) :
    (opened.after backend table fuel turns).scan = opened.scan := by
  induction turns generalizing opened with
  | nil => rfl
  | cons turn turns ih =>
      have hrest := fun turn hmem => hsends turn (List.mem_cons_of_mem _ hmem)
      cases turn with
      | next => exact absurd rfl (hsends .next List.mem_cons_self)
      | send request => exact ih hrest

end OpenScan

/-- A scan loses and repeats nothing, whatever is sent to the store between its items and whatever the page
size is: its items are those of an `Exact` run. When the store is left alone after some turns, the scan hands
out the records of a list and is over then; if it was not asked before, these are the records of all rows
in the order of their keys. -/
theorem scan_exact (backend : Backend) (table : Table) (pageSize fuel : Nat) (turns : List Turn)
    (hscannable : ∀ before, before <+: turns → backend.Scannable table
      (OpenScan.after backend table (fuel + 2) ⟨.begin pageSize, {}⟩ before).store) :
    let visits := OpenScan.visits backend table (fuel + 2) ⟨.begin pageSize, {}⟩ turns
    let reached := OpenScan.after backend table (fuel + 2) ⟨.begin pageSize, {}⟩ turns
    Exact backend table visits ∧
      ∃ records : List Record,
        (∀ count, (reached.visits backend table (fuel + 2) (.replicate count .next)).map Visit.item? =
          (records.take count).map (fun record => some (Item.record record)) ++
            .replicate (count - records.length) (some .finished)) ∧
        ((∀ turn ∈ turns, turn ≠ .next) →
          records = (reached.store.rows table.name).entries.map Prod.snd) := by
  intro visits reached
  have hsound : OpenScan.Sound backend table visits reached :=
    (OpenScan.Sound.begin backend table pageSize).run fuel hscannable
  have hreached := hscannable turns List.prefix_rfl
  refine ⟨hsound.exact, reached.pending backend table,
    OpenScan.items_eq_pending hreached.readsBack (hreached.leadsBack hsound.addressed) fuel, ?_⟩
  intro hsends
  have hscan : reached.scan = .begin pageSize := OpenScan.scan_after_of_sends hsends
  rw [OpenScan.pending, hscan]
  exact OpenScan.pending_begin pageSize reached.store

/-- A scan of pages of one row goes on after the row that it resumes after was removed. -/
theorem scan_exact_removed_start :
    let backend := Backend.databaseWith .ok Backend.columnMatches
    let table : Table := { name := "Things", partition := "Id", sort := some "Part" }
    let record (id : String) : Record :=
      (Record.empty.insert "Id" (.string id)).insert "Part" (.string "a")
    let turns : List Turn :=
      [.send (.put table (record "1") none), .send (.put table (record "2") none), .next,
        .send (.delete table ⟨"1", some "a"⟩ none), .next, .next]
    let visits := OpenScan.visits backend table 2 ⟨.begin 1, {}⟩ turns
    Exact backend table visits ∧
      (yielded backend table visits).map Fetched.row = [⟨"1", some "a"⟩, ⟨"2", some "a"⟩] := by
  intro backend table record turns visits
  have hread (store : Store) : store.ReadsBack backend := fun _ _ _ _ => rfl
  have hexact := (scan_exact backend table 1 0 turns fun _ _ => .sorted (hread _) rfl).1
  exact ⟨hexact, by decide +kernel⟩

end AccountPool
