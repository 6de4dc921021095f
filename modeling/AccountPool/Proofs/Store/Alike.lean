import AccountPool.Pool.Program
import AccountPool.Proofs.Store.Exchange

/-!
# Engines that cannot be told apart

Two engines are alike under a relation between their states if related states answer every request in the
same way and stay related. Then nobody who uses the engines can tell related states apart: not by requests
and scans, `Engine.Alike.shown`, and not by a program that chooses each call after the answers to the
earlier ones, `Engine.Alike.run`.
-/

namespace AccountPool

/-- A use of a store: a request, or a scan of a table that hands out its items one by one. -/
inductive Use where
  | request (request : Request)
  | scan (table : Table) (pageSize : Nat)

/-- What is shown to the user of a store. -/
inductive Shown where
  | answer (exchange : Exchange)
  | items (items : List Scan.Item)

/-- The items that a scan hands out in at most `fuel` steps; after the end or a failure it is over. -/
def Scan.items {σ : Type} (fetch : Fetch σ) (fuel : Nat) (scan : Scan) (state : σ) : List Item × σ :=
  match fuel with
  | 0 => ([], state)
  | fuel + 1 =>
      match step fetch scan state with
      | (some (.record record), scan, state) =>
          let (items, state) := items fetch fuel scan state
          (.record record :: items, state)
      | (some item, _, state) => ([item], state)
      | (none, scan, state) => items fetch fuel scan state

/-- What is shown by one use after the other. A scan is given up after `fuel` steps. -/
def Engine.shown {σ : Type} (engine : Engine σ) (fuel : Nat) (state : σ) : List Use → List Shown
  | [] => []
  | .request request :: uses =>
      .answer ⟨request, (engine state request).1⟩ :: shown engine fuel (engine state request).2 uses
  | .scan table pageSize :: uses =>
      let (items, state) := (Scan.begin pageSize).items (.ofEngine engine table) fuel state
      .items items :: shown engine fuel state uses

variable {σ τ : Type} {first : Engine σ} {second : Engine τ} {related : σ → τ → Prop}

/-- Related states of two engines give the same answers and stay related. -/
structure Engine.Alike (first : Engine σ) (second : Engine τ) (related : σ → τ → Prop) : Prop where
  answer : ∀ state other, related state other →
    ∀ request, (first state request).1 = (second other request).1
  next : ∀ state other, related state other →
    ∀ request, related (first state request).2 (second other request).2

/-- An engine is like itself in the same state. -/
theorem Engine.alike_self (engine : Engine σ) : Engine.Alike engine engine Eq where
  answer := by
    rintro state _ rfl request
    rfl
  next := by
    rintro state _ rfl request
    rfl

namespace Engine.Alike

/-- Being alike is symmetric. -/
theorem symm (h : Alike first second related) : Alike second first fun other state =>
    related state other where
  answer other state hrelated request := (h.answer state other hrelated request).symm
  next other state hrelated request := h.next state other hrelated request

/-- If two engines are like a third one, then they are alike where the third one has one state for both. -/
theorem trans {υ : Type} {third : Engine υ} {related' : τ → υ → Prop}
    (h : Alike first second related) (h' : Alike second third related') :
    Alike first third fun state last => ∃ other, related state other ∧ related' other last where
  answer := by
    rintro state last ⟨other, hrelated, hrelated'⟩ request
    exact (h.answer state other hrelated request).trans (h'.answer other last hrelated' request)
  next := by
    rintro state last ⟨other, hrelated, hrelated'⟩ request
    exact ⟨_, h.next state other hrelated request, h'.next other last hrelated' request⟩

variable (h : Alike first second related)

include h

/-- A step of a scan hands out the same on both sides. -/
theorem step {state : σ} {other : τ} (hrelated : related state other) (table : Table) (scan : Scan) :
    ∃ item next after after', related after after' ∧
      scan.step (.ofEngine first table) state = (item, next, after) ∧
      scan.step (.ofEngine second table) other = (item, next, after') := by
  have hanswer := h.answer state other hrelated (.page table scan.pageSize scan.start)
  have hnext := h.next state other hrelated (.page table scan.pageSize scan.start)
  cases hpage : first state (.page table scan.pageSize scan.start) with
  | mk answer after =>
  cases hpage' : second other (.page table scan.pageSize scan.start) with
  | mk answer' after' =>
  rw [hpage, hpage'] at hanswer hnext
  obtain rfl : answer = answer' := hanswer
  unfold Scan.step
  cases scan.buffer with
  | cons record buffer => exact ⟨_, _, _, _, hrelated, rfl, rfl⟩
  | nil =>
      cases scan.exhausted with
      | true => exact ⟨_, _, _, _, hrelated, rfl, rfl⟩
      | false =>
          simp only [Bool.false_eq_true, if_false, Scan.Fetch.ofEngine, hpage, hpage']
          cases answer with
          | ok page => exact ⟨_, _, _, _, hnext, rfl, rfl⟩
          | error error => exact ⟨_, _, _, _, hnext, rfl, rfl⟩

/-- A scan that hands out its items hands out the same on both sides. -/
theorem items {state : σ} {other : τ} (hrelated : related state other) (table : Table) (fuel : Nat)
    (scan : Scan) :
    ∃ items after after', related after after' ∧
      scan.items (.ofEngine first table) fuel state = (items, after) ∧
      scan.items (.ofEngine second table) fuel other = (items, after') := by
  induction fuel generalizing scan state other with
  | zero => exact ⟨[], state, other, hrelated, rfl, rfl⟩
  | succ fuel ih =>
      obtain ⟨item, next, after, after', hafter, hstep, hstep'⟩ := h.step hrelated table scan
      obtain ⟨items, last, last', hlast, hitems, hitems'⟩ := ih hafter next
      cases item with
      | none =>
          refine ⟨items, last, last', hlast, ?_, ?_⟩
          · simp only [Scan.items, hstep, hitems]
          · simp only [Scan.items, hstep', hitems']
      | some item =>
          cases item with
          | record record =>
              refine ⟨.record record :: items, last, last', hlast, ?_, ?_⟩
              · simp only [Scan.items, hstep, hitems]
              · simp only [Scan.items, hstep', hitems']
          | failure error =>
              refine ⟨[.failure error], after, after', hafter, ?_, ?_⟩
              · simp only [Scan.items, hstep]
              · simp only [Scan.items, hstep']
          | finished =>
              refine ⟨[.finished], after, after', hafter, ?_, ?_⟩
              · simp only [Scan.items, hstep]
              · simp only [Scan.items, hstep']

/-- A scan that keeps records gives the same on both sides. -/
theorem drain {state : σ} {other : τ} (hrelated : related state other) (table : Table)
    (keep : Record → Bool) (fuel : Nat) (scan : Scan) (kept : List Record) :
    ∃ answer after after', related after after' ∧
      scan.drain (.ofEngine first table) keep fuel state kept = (answer, after) ∧
      scan.drain (.ofEngine second table) keep fuel other kept = (answer, after') := by
  induction fuel generalizing scan state other kept with
  | zero => exact ⟨none, state, other, hrelated, rfl, rfl⟩
  | succ fuel ih =>
      obtain ⟨item, next, after, after', hafter, hstep, hstep'⟩ := h.step hrelated table scan
      simp only [Scan.drain, hstep, hstep']
      cases item with
      | none => exact ih hafter next kept
      | some item =>
          cases item with
          | record record => exact ih hafter next _
          | failure error => exact ⟨some (.error error), after, after', hafter, rfl, rfl⟩
          | finished => exact ⟨some (.ok kept), after, after', hafter, rfl, rfl⟩

/-- A run of requests gets the same answers on both sides. -/
theorem exchanges {state : σ} {other : τ} (hrelated : related state other) (requests : List Request) :
    first.exchanges state requests = second.exchanges other requests := by
  induction requests generalizing state other with
  | nil => rfl
  | cons request requests ih =>
      have hanswer := h.answer state other hrelated request
      simp only [Engine.exchanges, hanswer, ih (h.next state other hrelated request)]

/-- Whatever is done with the engines one after the other shows the same on both sides. -/
theorem shown {state : σ} {other : τ} (hrelated : related state other) (fuel : Nat)
    (uses : List Use) : first.shown fuel state uses = second.shown fuel other uses := by
  induction uses generalizing state other with
  | nil => rfl
  | cons use uses ih =>
      cases use with
      | request request =>
          have hanswer := h.answer state other hrelated request
          simp only [Engine.shown, hanswer, ih (h.next state other hrelated request)]
      | scan table pageSize =>
          obtain ⟨items, after, after', hafter, hitems, hitems'⟩ :=
            h.items hrelated table fuel (.begin pageSize)
          simp only [Engine.shown, hitems, hitems', ih hafter]

/-- A program gives the same on both sides, whatever it makes of the answers, and leaves related states. -/
theorem run {α : Type} (fuel : σ → Nat) (fuel' : τ → Nat)
    (hfuel : ∀ state other, related state other → fuel state = fuel' other) (program : Program α)
    {state : σ} {other : τ} (hrelated : related state other) (time : Clock) :
    ∃ result after after' time', related after after' ∧
      program.run first fuel state time = (result, after, time') ∧
      program.run second fuel' other time = (result, after', time') := by
  induction program generalizing state other time with
  | done result => exact ⟨some result, state, other, time, hrelated, rfl, rfl⟩
  | call request resume ih =>
      obtain ⟨result, after, after', time', hafter, hrun, hrun'⟩ :=
        ih (first state request).1 (h.next state other hrelated request) time
      refine ⟨result, after, after', time', hafter, hrun, ?_⟩
      rw [h.answer state other hrelated request] at hrun'
      exact hrun'
  | clock resume ih => exact ih time.now hrelated time.tick
  | scan table pageSize keep resume ih =>
      obtain ⟨answer, after, after', hafter, hdrain, hdrain'⟩ :=
        h.drain hrelated table keep (fuel state) (.begin pageSize) []
      simp only [Program.run, hdrain, ← hfuel state other hrelated, hdrain']
      cases answer with
      | none => exact ⟨none, after, after', time, hafter, rfl, rfl⟩
      | some answer => exact ih answer hafter time

end Engine.Alike

end AccountPool
