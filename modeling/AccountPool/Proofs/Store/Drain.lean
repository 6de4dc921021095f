import AccountPool.Proofs.Store.Pages

/-!
# Scans that are not disturbed

While nobody changes the store, a scan reads the rows of its table as if they were read all at once:
`Scan.drain_eq`. This needs rows that are addressed by the keys shown for them. `Scan.rounds`
counts the steps that are needed.
-/

namespace AccountPool

namespace Scan

variable {backend : Backend} {store : Store} {table : Table} {scan : Scan}

/-! ## Steps -/

/-- A page is asked for before the next item is handed out. -/
def fetches (scan : Scan) : Bool :=
  scan.buffer.isEmpty && !scan.exhausted

/-- A page is asked for when all records were handed out and the scan is not exhausted. -/
theorem fetches_iff : scan.fetches ↔ scan.buffer = [] ∧ scan.exhausted = false := by
  simp [fetches]

section Steps

variable {σ : Type} {fetch : Fetch σ} {state : σ}

/-- A record that was fetched is handed out. -/
theorem step_of_buffer {record : Record} {buffer : List Record}
    (hbuffer : scan.buffer = record :: buffer) :
    scan.step fetch state = (some (.record record), { scan with buffer }, state) := by
  rw [step, hbuffer]

/-- A scan that is exhausted is over when all records are handed out. -/
theorem step_of_exhausted (hbuffer : scan.buffer = []) (hover : scan.exhausted = true) :
    scan.step fetch state = (some .finished, scan, state) := by
  simp only [step, hbuffer, hover, if_true]

/-- A step leaves the store as it is if asking for a page does. -/
theorem step_state {engine : Engine σ}
    (hpage : ∀ state limit start, (engine state (.page table limit start)).2 = state) (scan : Scan)
    (state : σ) : (scan.step (.ofEngine engine table) state).2.2 = state := by
  have hfetch := hpage state scan.pageSize scan.start
  rw [step]
  split
  · rfl
  · split
    · rfl
    · split
      · next page after hanswer => exact (congrArg Prod.snd hanswer).symm.trans hfetch
      · next error after hanswer => exact (congrArg Prod.snd hanswer).symm.trans hfetch

end Steps

/-- A scan leaves the store as it is. -/
theorem drain_state (keep : Record → Bool) (fuel : Nat) (scan : Scan) (kept : List Record) :
    (scan.drain (.ofEngine backend.perform table) keep fuel store kept).2 = store := by
  induction fuel generalizing scan kept with
  | zero => rfl
  | succ fuel ih =>
      have hstep := step_state (fun state limit start =>
        show (backend.perform state (.page table limit start)).2 = state from rfl) scan store
      rw [drain]
      split <;> next hscan =>
        rw [hscan] at hstep
        obtain rfl : _ = store := hstep
        first | exact ih _ _ | rfl

/-- The scan after the records of the next page were read. -/
def refilled (backend : Backend) (store : Store) (table : Table) (scan : Scan)
    (records : List Record) : Scan :=
  let last := backend.pageLast store table scan.pageSize scan.start
  ⟨scan.pageSize, last, records, last.isNone⟩

/-- The scan after a page that could not be read. -/
def failed (scan : Scan) : Scan :=
  ⟨scan.pageSize, none, [], true⟩

/-- A scan that has handed out all records asks for a page; it is over if the page cannot be read. -/
theorem step_of_page (hbuffer : scan.buffer = []) (hgoes : scan.exhausted = false) :
    scan.step (.ofEngine backend.perform table) store =
      match backend.readAll (backend.pageRows store table scan.pageSize scan.start) with
      | .ok records => (none, scan.refilled backend store table records, store)
      | .error error => (some (.failure error), scan.failed, store) := by
  simp only [step, hbuffer, hgoes, Bool.false_eq_true, if_false, Fetch.ofEngine, Backend.perform,
    Backend.page_eq_map]
  cases backend.readAll (backend.pageRows store table scan.pageSize scan.start) <;> rfl

/-! ## What is left to do -/

/-- The rows that a scan has not fetched. -/
def remaining (backend : Backend) (store : Store) (table : Table) (scan : Scan) :
    List (Key × Record) :=
  if scan.exhausted then [] else backend.rowsAfter store table scan.start

/-- Nothing was fetched by a scan that has not started. -/
theorem remaining_begin (pageSize : Nat) :
    (begin pageSize).remaining backend store table = (store.rows table.name).entries :=
  rfl

/-- Nothing remains for a scan that is exhausted. -/
theorem remaining_of_exhausted (hover : scan.exhausted = true) :
    scan.remaining backend store table = [] :=
  if_pos hover

/-- What remains is fetched by the next page or remains after it. -/
theorem remaining_eq_append
    (hlead : ∀ row ∈ (store.rows table.name).entries, backend.LeadsBack table row.1)
    (hgoes : scan.exhausted = false) (records : List Record) :
    scan.remaining backend store table =
      backend.pageRows store table scan.pageSize scan.start ++
        (scan.refilled backend store table records).remaining backend store table := by
  simp only [remaining, refilled, hgoes, Bool.false_eq_true, if_false]
  exact Backend.rowsAfter_eq_append hlead scan.pageSize scan.start

/-- A number of steps that is enough to hand out what was fetched and to fetch and hand out the rest: a
row that remains is handed out and costs at most one page. -/
def rounds (backend : Backend) (store : Store) (table : Table) (scan : Scan) : Nat :=
  scan.buffer.length + 2 * (scan.remaining backend store table).length +
    if scan.exhausted then 1 else 2

/-- Every scan makes another step. -/
theorem rounds_pos : 0 < scan.rounds backend store table := by
  unfold rounds
  split <;> omega

/-- A scan of a table needs no more steps than it has by default. -/
theorem rounds_begin_le (pageSize : Nat) :
    (begin pageSize).rounds backend store table ≤ steps (store.rows table.name).size := by
  show 0 + 2 * (store.rows table.name).entries.length + 2 ≤ 2 * (store.rows table.name).entries.length + 3
  omega

/-- A record that is handed out makes one step less. -/
theorem rounds_of_buffer {record : Record} {buffer : List Record}
    (hbuffer : scan.buffer = record :: buffer) :
    scan.rounds backend store table = rounds backend store table { scan with buffer } + 1 := by
  have hsame : remaining backend store table { scan with buffer } =
      scan.remaining backend store table := rfl
  simp only [rounds, hsame, hbuffer, List.length_cons]
  omega

/-- A page makes fewer steps, for one without rows is the last one, and any other one takes rows from what
remains. -/
theorem rounds_refilled_lt
    (hlead : ∀ row ∈ (store.rows table.name).entries, backend.LeadsBack table row.1)
    (hgoes : scan.exhausted = false) {records : List Record}
    (hread : backend.readAll (backend.pageRows store table scan.pageSize scan.start) = .ok records) :
    (scan.refilled backend store table records).rounds backend store table <
      scan.rounds backend store table := by
  have hlength := Backend.length_readAll hread
  have hremaining := congrArg List.length (remaining_eq_append hlead hgoes records)
  rw [List.length_append] at hremaining
  have hbuffer : (scan.refilled backend store table records).buffer = records := rfl
  rw [rounds, rounds, hremaining, hbuffer, hlength, hgoes]
  cases hlast : backend.pageLast store table scan.pageSize scan.start with
  | none =>
      have hover : (scan.refilled backend store table records).exhausted = true := by
        simp [refilled, hlast]
      simp only [hover, Bool.false_eq_true, if_true, if_false]
      omega
  | some key =>
      have hfull := (Backend.pageLast_eq_some.1 hlast).1
      have hon : (scan.refilled backend store table records).exhausted = false := by
        simp [refilled, hlast]
      simp only [hon, Bool.false_eq_true, if_false]
      omega

/-! ## What is handed out -/

/-- Keeping the first record and then others is keeping all of them. -/
theorem keep_cons (keep : Record → Bool) (kept : List Record) (record : Record)
    (records : List Record) :
    (if keep record then kept ++ [record] else kept) ++ records.filter keep =
      kept ++ (record :: records).filter keep := by
  cases hkeep : keep record with
  | true => simp [List.filter_cons_of_pos hkeep]
  | false => simp [hkeep]

/-- A scan of rows that are addressed by the keys shown for them reads what remains as if it were read at
once, and keeps the records that pass the test. -/
theorem drain_eq (hlead : ∀ row ∈ (store.rows table.name).entries, backend.LeadsBack table row.1)
    (keep : Record → Bool) {fuel : Nat} {scan : Scan} (kept : List Record)
    (hfuel : scan.rounds backend store table ≤ fuel) :
    scan.drain (.ofEngine backend.perform table) keep fuel store kept =
      (some ((backend.readAll (scan.remaining backend store table)).map fun records =>
        kept ++ (scan.buffer ++ records).filter keep), store) := by
  induction fuel generalizing scan kept with
  | zero => exact absurd hfuel (Nat.not_le_of_gt rounds_pos)
  | succ fuel ih =>
      rw [drain]
      cases hbuffer : scan.buffer with
      | cons record buffer =>
          have hrest : rounds backend store table { scan with buffer } ≤ fuel := by
            rw [rounds_of_buffer hbuffer] at hfuel
            exact Nat.le_of_succ_le_succ hfuel
          have hsame : remaining backend store table { scan with buffer } =
              scan.remaining backend store table := rfl
          simp only [step_of_buffer hbuffer, ih _ hrest, hsame, keep_cons, List.cons_append]
      | nil =>
          cases hexhausted : scan.exhausted with
          | true =>
              simp only [step_of_exhausted hbuffer hexhausted, remaining_of_exhausted hexhausted,
                Backend.readAll_nil, Except.map, List.append_nil, List.filter_nil]
          | false =>
              rw [step_of_page hbuffer hexhausted]
              cases hread : backend.readAll (backend.pageRows store table scan.pageSize scan.start) with
              | error error =>
                  rw [remaining_eq_append hlead hexhausted [], Backend.readAll_append, hread]
                  rfl
              | ok records =>
                  have hlt := rounds_refilled_lt hlead hexhausted hread
                  have hrest := Nat.le_of_lt_succ (Nat.lt_of_lt_of_le hlt hfuel)
                  simp only [ih _ hrest]
                  rw [remaining_eq_append hlead hexhausted records, Backend.readAll_append, hread]
                  cases backend.readAll
                    ((scan.refilled backend store table records).remaining backend store table) <;> rfl

end Scan

end AccountPool
