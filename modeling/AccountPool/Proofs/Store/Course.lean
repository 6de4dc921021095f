import AccountPool.Proofs.Store.Drain
import AccountPool.Proofs.Store.Exchange

/-!
# The course of a scan

A scan asks a store for pages, and nothing is known of the answers. `Scan.Course` says in which order requests
are sent and items handed out all the same, and `scan_course` that a scan keeps to this order, whatever happens
to the store between its items. The requests can be seen because the store is replaced by one that records them
and gives the same answers, `Scan.next_recorded`.
-/

namespace AccountPool

/-- An engine that records the requests that are sent to it, with their answers. -/
def Engine.recorded {σ : Type} (engine : Engine σ) : Engine (σ × List Exchange) :=
  fun state request =>
    let (answer, after) := engine state.1 request
    (answer, after, state.2 ++ [⟨request, answer⟩])

namespace Scan

/-! ## What a scan should do -/

/-- What can be seen of a scan: a request to the store with its answer, or an item that is handed out. -/
inductive Event where
  | sent (exchange : Exchange)
  | item (item : Item)

/-- A record is handed out. -/
def Event.record (record : Record) : Event :=
  .item (.record record)

/-- The course that a scan takes from a key on, as far as it has come: pages are asked for one after the other,
and the records of each are handed out before the next one is asked for. -/
inductive Course (table : Table) (limit : Nat) : Option Key → List Event → Prop where
  | idle {start : Option Key} : Course table limit start []
  /-- The first records of a page were handed out. -/
  | partway {start : Option Key} {page : Page} {handed : List Record} (h : handed <+: page.records) :
      Course table limit start (.sent ⟨.page table limit start, .ok page⟩ :: handed.map .record)
  /-- All records of a page were handed out, and the scan goes on after the key that the page names. -/
  | onward {start : Option Key} {page : Page} {key : Key} {events : List Event}
      (hlast : page.last = some key) (h : Course table limit (some key) events) :
      Course table limit start
        (.sent ⟨.page table limit start, .ok page⟩ :: (page.records.map .record ++ events))
  /-- All records of a page were handed out, and the scan is over, for the page names no key. -/
  | complete {start : Option Key} {page : Page} (hlast : page.last = none) (count : Nat) :
      Course table limit start
        (.sent ⟨.page table limit start, .ok page⟩ ::
          (page.records.map .record ++ .replicate count (.item .finished)))
  /-- A request failed, which is reported once, and the scan is over. -/
  | failed {start : Option Key} (error : StoreError) (count : Nat) :
      Course table limit start
        (.sent ⟨.page table limit start, .error error⟩ :: .item (.failure error) ::
          .replicate count (.item .finished))

/-! ## What a scan does -/

/-- What comes of asking a scan for its next item. -/
structure Call (σ : Type) where
  item? : Option Item
  scan : Scan
  state : σ
  /-- The requests that were sent to the store. -/
  exchanges : List Exchange

namespace Call

variable {σ : Type} (call : Call σ)

/-- What can be seen of a call. -/
def events : List Event :=
  call.exchanges.map .sent ++ call.item?.toList.map .item

/-- The scan reports its end or a failure. -/
def Ends : Prop :=
  call.item? = some .finished ∨ ∃ error, call.item? = some (.failure error)

end Call

section Calls

variable {σ : Type} (engine : Engine σ) (table : Table) (fuel : Nat)

/-- Ask a scan for its next item, with the requests that an engine which records them gets. -/
def call (scan : Scan) (state : σ) : Call σ :=
  let (item?, next, after) := scan.next (.ofEngine engine table) fuel state
  ⟨item?, next, after, (scan.next (.ofEngine engine.recorded table) fuel (state, [])).2.2.2⟩

/-- Ask a scan for its next items, one after the other. Before each of them something happens to the store. -/
def calls (scan : Scan) (state : σ) : List (σ → σ) → List (Call σ)
  | [] => []
  | change :: changes =>
      let asked := scan.call engine table fuel (change state)
      asked :: calls asked.scan asked.state changes

end Calls

/-! ## One call -/

/-- The scan after a page was answered. -/
def stocked (scan : Scan) (page : Page) : Scan :=
  ⟨scan.pageSize, page.last, page.records, page.last.isNone⟩

/-- How a scan comes to its next item, or to the end of its steps, with the requests that it sends. -/
inductive Moves (table : Table) : Nat → Scan → List Exchange → Option Item → Scan → Prop where
  | paused {scan : Scan} : Moves table 0 scan [] none scan
  | record {fuel : Nat} {scan : Scan} {record : Record} {buffer : List Record}
      (hbuffer : scan.buffer = record :: buffer) :
      Moves table (fuel + 1) scan [] (some (.record record)) { scan with buffer }
  | finished {fuel : Nat} {scan : Scan} (hbuffer : scan.buffer = []) (hover : scan.exhausted = true) :
      Moves table (fuel + 1) scan [] (some .finished) scan
  | failed {fuel : Nat} {scan : Scan} {error : StoreError} (hbuffer : scan.buffer = [])
      (hgoes : scan.exhausted = false) :
      Moves table (fuel + 1) scan [⟨.page table scan.pageSize scan.start, .error error⟩]
        (some (.failure error)) scan.failed
  | page {fuel : Nat} {scan next : Scan} {page : Page} {exchanges : List Exchange} {item? : Option Item}
      (hbuffer : scan.buffer = []) (hgoes : scan.exhausted = false)
      (h : Moves table fuel (scan.stocked page) exchanges item? next) :
      Moves table (fuel + 1) scan (⟨.page table scan.pageSize scan.start, .ok page⟩ :: exchanges) item? next

section Call

variable {σ : Type} {engine : Engine σ} {table : Table} {fuel : Nat} {scan : Scan} {state : σ}

/-- A scan that has handed out all records asks for a page, whatever the answer. -/
theorem step_of_fetch {fetch : Fetch σ} (hbuffer : scan.buffer = []) (hgoes : scan.exhausted = false) :
    scan.step fetch state =
      match fetch state scan.pageSize scan.start with
      | (.ok page, after) => (none, scan.stocked page, after)
      | (.error error, after) => (some (.failure error), scan.failed, after) := by
  simp only [step, hbuffer, hgoes, Bool.false_eq_true, if_false]
  rfl

/-- Recording the requests changes nothing else. -/
theorem next_recorded (engine : Engine σ) (table : Table) (fuel : Nat) (scan : Scan) (state : σ)
    (log : List Exchange) :
    ∃ exchanges item? next after,
      scan.next (.ofEngine engine table) fuel state = (item?, next, after) ∧
      scan.next (.ofEngine engine.recorded table) fuel (state, log) =
        (item?, next, after, log ++ exchanges) ∧
      Moves table fuel scan exchanges item? next := by
  induction fuel generalizing scan state log with
  | zero => exact ⟨[], none, scan, state, rfl, by rw [List.append_nil]; rfl, .paused⟩
  | succ fuel ih =>
      cases hbuffer : scan.buffer with
      | cons record buffer =>
          refine ⟨[], some (.record record), { scan with buffer }, state, ?_, ?_, .record hbuffer⟩
          · rw [next, step_of_buffer hbuffer]
          · rw [next, step_of_buffer hbuffer, List.append_nil]
      | nil =>
          cases hexhausted : scan.exhausted with
          | true =>
              refine ⟨[], some .finished, scan, state, ?_, ?_, .finished hbuffer hexhausted⟩
              · rw [next, step_of_exhausted hbuffer hexhausted]
              · rw [next, step_of_exhausted hbuffer hexhausted, List.append_nil]
          | false =>
              let request : Request := .page table scan.pageSize scan.start
              rw [next, next, step_of_fetch hbuffer hexhausted, step_of_fetch hbuffer hexhausted]
              simp only [Fetch.ofEngine, Engine.recorded]
              rcases engine state request with ⟨answer, after⟩
              cases answer with
              | error error =>
                  exact ⟨[⟨request, .error error⟩], some (.failure error), scan.failed, after, rfl, rfl,
                    .failed hbuffer hexhausted⟩
              | ok page =>
                  obtain ⟨exchanges, item?, next, last, hplain, hlog, hmoves⟩ :=
                    ih (scan.stocked page) after (log ++ [⟨request, .ok page⟩])
                  refine ⟨⟨request, .ok page⟩ :: exchanges, item?, next, last, hplain, ?_,
                    .page hbuffer hexhausted hmoves⟩
                  rw [List.append_assoc] at hlog
                  exact hlog

/-- A call is how the scan comes to its next item. -/
theorem moves_call (engine : Engine σ) (table : Table) (fuel : Nat) (scan : Scan) (state : σ) :
    Moves table fuel scan (scan.call engine table fuel state).exchanges
      (scan.call engine table fuel state).item? (scan.call engine table fuel state).scan := by
  obtain ⟨exchanges, item?, next, after, hplain, hlog, hmoves⟩ :=
    next_recorded engine table fuel scan state []
  rw [call, hplain, hlog]
  exact hmoves

/-- The number of rows that a scan asks for does not change. -/
theorem Moves.pageSize_eq {exchanges : List Exchange} {item? : Option Item} {next : Scan}
    (h : Moves table fuel scan exchanges item? next) : next.pageSize = scan.pageSize := by
  induction h with
  | page _ _ _ ih => exact ih
  | _ => rfl

/-- A call that ends without an item has used up its steps on pages without records. Only the last page may
have some, which are still to be handed out. -/
theorem Moves.of_none {exchanges : List Exchange} {next : Scan}
    (h : Moves table fuel scan exchanges none next) :
    exchanges.length = fuel ∧ ∀ exchange ∈ exchanges.dropLast, ∃ start key,
      exchange = ⟨.page table scan.pageSize start, .ok ⟨[], some key⟩⟩ := by
  generalize hitem : (none : Option Item) = item? at h
  induction h with
  | paused => exact ⟨rfl, by simp⟩
  | record | finished | failed => cases hitem
  | @page _ scan _ answer _ _ _ _ h ih =>
      obtain ⟨hlength, hempty⟩ := ih hitem
      refine ⟨congrArg (· + 1) hlength, ?_⟩
      cases h with
      | paused => simp
      | record | finished | failed => cases hitem
      | page hbuffer hgoes =>
          intro exchange hmem
          rw [List.dropLast_cons_cons, List.mem_cons] at hmem
          obtain rfl | hmem := hmem
          · -- Another page was asked for after this one, so this one has no records and names a key.
            obtain ⟨records, last⟩ := answer
            obtain rfl : records = [] := hbuffer
            cases last with
            | none => cases hgoes
            | some key => exact ⟨scan.start, key, rfl⟩
          · exact hempty exchange hmem

/-! ## Ahead -/

/-- A scan is over when all records are handed out and no page is asked for. -/
def Over (scan : Scan) : Prop :=
  scan.buffer = [] ∧ scan.exhausted = true

/-- What may be seen of a scan from now on. -/
inductive Ahead (table : Table) (scan : Scan) : List Event → Prop where
  | partway {handed : List Record} (h : handed <+: scan.buffer) : Ahead table scan (handed.map .record)
  | onward {events : List Event} (hgoes : scan.exhausted = false)
      (h : Course table scan.pageSize scan.start events) :
      Ahead table scan (scan.buffer.map .record ++ events)
  | complete (hover : scan.exhausted = true) (count : Nat) :
      Ahead table scan (scan.buffer.map .record ++ .replicate count (.item .finished))

/-- A scan that is over finishes again and again. -/
theorem Ahead.of_over {events : List Event} (h : Ahead table scan events) (hover : scan.Over) :
    ∃ count, events = .replicate count (.item .finished) := by
  obtain ⟨hbuffer, hexhausted⟩ := hover
  cases h with
  | partway h =>
      rw [hbuffer, List.prefix_nil] at h
      exact ⟨0, by rw [h]; rfl⟩
  | onward hgoes => simp [hexhausted] at hgoes
  | complete _ count => exact ⟨count, by rw [hbuffer]; rfl⟩

/-- A record of the buffer comes first. -/
theorem Ahead.record {record : Record} {buffer : List Record} (hbuffer : scan.buffer = record :: buffer)
    {events : List Event} (h : Ahead table { scan with buffer } events) :
    Ahead table scan (.item (.record record) :: events) := by
  cases h with
  | @partway handed h =>
      have hprefix : record :: handed <+: scan.buffer := by
        rw [hbuffer]
        exact List.prefix_cons_inj record |>.2 h
      exact .partway hprefix
  | onward hgoes h =>
      have honward : Ahead table scan (scan.buffer.map .record ++ _) := .onward hgoes h
      rw [hbuffer] at honward
      exact honward
  | complete hover count =>
      have hexhausted : scan.exhausted = true := hover
      have hend : Ahead table scan (scan.buffer.map .record ++ _) := .complete hexhausted count
      rw [hbuffer] at hend
      exact hend

/-- A page is asked for when all records were handed out. -/
theorem Ahead.page (hbuffer : scan.buffer = []) (hgoes : scan.exhausted = false) {page : Page}
    {events : List Event} (h : Ahead table (scan.stocked page) events) :
    Ahead table scan (.sent ⟨.page table scan.pageSize scan.start, .ok page⟩ :: events) := by
  have hcourse : Course table scan.pageSize scan.start
      (.sent ⟨.page table scan.pageSize scan.start, .ok page⟩ :: events) := by
    cases h with
    | partway h => exact .partway h
    | onward hnamed h =>
        obtain ⟨key, hkey⟩ := Option.isSome_iff_exists.1 (Option.isNone_eq_false_iff.1 hnamed)
        have hlater : Course table scan.pageSize page.last _ := h
        rw [hkey] at hlater
        exact .onward hkey hlater
    | complete hlast count => exact .complete (Option.isNone_iff_eq_none.1 hlast) count
  have honward := Ahead.onward hgoes hcourse
  rwa [hbuffer] at honward

/-- What a call makes to be seen comes first. -/
theorem Moves.ahead {exchanges : List Exchange} {item? : Option Item} {next : Scan}
    (h : Moves table fuel scan exchanges item? next) {events : List Event} (hnext : Ahead table next events) :
    Ahead table scan (exchanges.map .sent ++ item?.toList.map .item ++ events) := by
  induction h with
  | paused => exact hnext
  | record hbuffer => exact .record hbuffer hnext
  | @finished _ scan hbuffer hover =>
      obtain ⟨count, rfl⟩ := hnext.of_over ⟨hbuffer, hover⟩
      have hend : Ahead table scan (scan.buffer.map .record ++ _) := .complete hover (count + 1)
      rwa [hbuffer] at hend
  | @failed _ scan error hbuffer hgoes =>
      obtain ⟨count, rfl⟩ := hnext.of_over ⟨rfl, rfl⟩
      have honward : Ahead table scan (scan.buffer.map .record ++ _) := .onward hgoes (.failed error count)
      rwa [hbuffer] at honward
  | page hbuffer hgoes _ ih => exact .page hbuffer hgoes (ih hnext)

/-- After the end or a failure the scan is over. -/
theorem Moves.over_of_ends {exchanges : List Exchange} {item? : Option Item} {next : Scan}
    (h : Moves table fuel scan exchanges item? next)
    (hends : item? = some .finished ∨ ∃ error, item? = some (.failure error)) : next.Over := by
  induction h with
  | paused => obtain hends | ⟨error, hends⟩ := hends <;> cases hends
  | record => obtain hends | ⟨error, hends⟩ := hends <;> cases hends
  | finished hbuffer hover => exact ⟨hbuffer, hover⟩
  | failed => exact ⟨rfl, rfl⟩
  | page _ _ _ ih => exact ih hends

/-- A scan that is over sends no request, and it stays over. -/
theorem Moves.of_over {exchanges : List Exchange} {item? : Option Item} {next : Scan}
    (h : Moves table (fuel + 1) scan exchanges item? next) (hover : scan.Over) :
    item? = some .finished ∧ exchanges = [] ∧ next = scan := by
  obtain ⟨hbuffer, hexhausted⟩ := hover
  cases h with
  | record hother => cases hbuffer.symm.trans hother
  | finished => exact ⟨rfl, rfl, rfl⟩
  | failed _ hgoes | page _ hgoes => cases hexhausted.symm.trans hgoes

end Call

/-! ## All calls -/

section Calls

variable {σ : Type} (engine : Engine σ) (table : Table) (fuel : Nat)

/-- All calls together keep to what may be seen of the scan. -/
theorem ahead_calls (changes : List (σ → σ)) (scan : Scan) (state : σ) :
    Ahead table scan ((scan.calls engine table fuel state changes).flatMap Call.events) := by
  induction changes generalizing scan state with
  | nil => exact .partway List.nil_prefix
  | cons change changes ih =>
      have hrest := ih (scan.call engine table fuel (change state)).scan
        (scan.call engine table fuel (change state)).state
      exact (moves_call engine table fuel scan (change state)).ahead hrest

/-- Every call is made by a scan with the same number of rows. -/
theorem moves_of_mem_calls {changes : List (σ → σ)} {scan : Scan} {state : σ} {call : Call σ}
    (hmem : call ∈ scan.calls engine table fuel state changes) :
    ∃ before, before.pageSize = scan.pageSize ∧
      Moves table fuel before call.exchanges call.item? call.scan := by
  induction changes generalizing scan state with
  | nil => cases hmem
  | cons change changes ih =>
      have hmoves := moves_call engine table fuel scan (change state)
      obtain rfl | hmem := List.mem_cons.1 hmem
      · exact ⟨scan, rfl, hmoves⟩
      · obtain ⟨before, hsize, hcall⟩ := ih hmem
        exact ⟨before, hsize.trans hmoves.pageSize_eq, hcall⟩

/-- A scan that is over only reports its end. -/
theorem calls_of_over {changes : List (σ → σ)} {scan : Scan} (hover : scan.Over) {state : σ} {call : Call σ}
    (hmem : call ∈ scan.calls engine table (fuel + 1) state changes) :
    call.item? = some .finished ∧ call.exchanges = [] := by
  induction changes generalizing scan state with
  | nil => cases hmem
  | cons change changes ih =>
      obtain ⟨hitem, hquiet, hsame⟩ :=
        (moves_call engine table (fuel + 1) scan (change state)).of_over hover
      obtain rfl | hmem := List.mem_cons.1 hmem
      · exact ⟨hitem, hquiet⟩
      · rw [hsame] at hmem
        exact ih hover hmem

/-- After a call that ends the scan, all calls only report the end. -/
theorem pairwise_calls (changes : List (σ → σ)) (scan : Scan) (state : σ) :
    (scan.calls engine table (fuel + 1) state changes).Pairwise fun earlier later =>
      earlier.Ends → later.item? = some .finished ∧ later.exchanges = [] := by
  induction changes generalizing scan state with
  | nil => exact .nil
  | cons change changes ih =>
      refine .cons ?_ (ih _ _)
      intro later hmem hends
      exact calls_of_over engine table fuel
        ((moves_call engine table (fuel + 1) scan (change state)).over_of_ends hends) hmem

end Calls

end Scan

/-- A scan of any store takes its course. A call that hands out nothing has asked for as many pages as it has
steps, all but the last one without records and with a key. Once the end or a failure was reported, nothing but
the end is reported and no request is sent. -/
theorem scan_course {σ : Type} (engine : Engine σ) (table : Table) (pageSize fuel : Nat) (state : σ)
    (changes : List (σ → σ)) :
    let calls := Scan.calls engine table (fuel + 1) (.begin pageSize) state changes
    Scan.Course table (max pageSize 1) none (calls.flatMap Scan.Call.events) ∧
    (∀ call ∈ calls, call.item? = none → call.exchanges.length = fuel + 1 ∧
      ∀ exchange ∈ call.exchanges.dropLast, ∃ start key,
        exchange = ⟨.page table (max pageSize 1) start, .ok ⟨[], some key⟩⟩) ∧
    calls.Pairwise fun earlier later =>
      earlier.Ends → later.item? = some .finished ∧ later.exchanges = [] := by
  intro calls
  refine ⟨?_, ?_, Scan.pairwise_calls engine table fuel changes _ state⟩
  · generalize hevents : calls.flatMap Scan.Call.events = events
    have hahead := Scan.ahead_calls engine table (fuel + 1) changes (.begin pageSize) state
    rw [show _ = events from hevents] at hahead
    cases hahead with
    | partway h =>
        rw [List.prefix_nil.1 h]
        exact .idle
    | onward _ h => exact h
    | complete hover => cases hover
  · intro call hmem hnone
    obtain ⟨before, hsize, hmoves⟩ := Scan.moves_of_mem_calls engine table (fuel + 1) hmem
    rw [hnone] at hmoves
    have hpages := hmoves.of_none
    rwa [hsize] at hpages

/-- A store answers with a page without records, a page with one, and a failure. A scan that makes two steps at
a time hands out nothing at first, then the record and the failure, and is over. -/
theorem scan_course_failing :
    let table : Table := { name := "Things", partition := "Id" }
    let record : Record := Record.empty.insert "Id" (.string "1")
    let engine : Engine (List (Except StoreError Page)) := fun answers request =>
      match request, answers with
      | .page .., answer :: answers => (answer, answers)
      | _, answers => (.error .poisoned, answers)
    let answers := [.ok ⟨[], some ⟨"0", none⟩⟩, .ok ⟨[record], some ⟨"1", none⟩⟩, .error .poisoned]
    let calls := Scan.calls engine table 2 (.begin 0) answers [id, id, id, id]
    calls.map Scan.Call.item? =
        [none, some (.record record), some (.failure .poisoned), some .finished] ∧
      Scan.Course table 1 none (calls.flatMap Scan.Call.events) ∧
      (∀ call ∈ calls.head?, call.exchanges.length = 2) ∧
      ∀ call ∈ calls.getLast?, call.exchanges = [] := by
  intro table record engine answers calls
  obtain ⟨hcourse, hnothing, hends⟩ := scan_course engine table 0 1 answers [id, id, id, id]
  refine ⟨rfl, hcourse, ?_, ?_⟩
  · rintro call ⟨⟩
    exact (hnothing _ List.mem_cons_self rfl).1
  · rintro call ⟨⟩
    exact (List.pairwise_iff_getElem.1 hends 2 3 (by decide) (by decide) (by decide) (.inr ⟨_, rfl⟩)).2

end AccountPool
