import AccountPool.Store.Request

/-!
# Lazy scans

A scan goes through a table one page at a time. It asks for a page only when the records of the
earlier ones have been handed out, resumes after the key that the last page named, and is over after
a page that names none or after a failure. Anything may happen to the store between two steps.
-/

namespace AccountPool

/-- How far a scan has come. -/
structure Scan where
  /-- The number of rows to ask for, at least one. -/
  pageSize : Nat
  /-- The key to resume after. -/
  start : Option Key
  /-- Fetched records that have not been handed out. -/
  buffer : List Record
  /-- No further page is asked for. -/
  exhausted : Bool

namespace Scan

/-- A scan that has not started. -/
def begin (pageSize : Nat) : Scan :=
  ⟨max pageSize 1, none, [], false⟩

/-- What a scan hands out. -/
inductive Item where
  | record (record : Record)
  | failure (error : StoreError)
  | finished

/-- A way to fetch a page: a limit and a key to resume after. -/
abbrev Fetch (σ : Type) : Type :=
  σ → Nat → Option Key → Except StoreError Page × σ

/-- The pages of a table as an engine answers them. -/
def Fetch.ofEngine {σ : Type} (engine : Engine σ) (table : Table) : Fetch σ :=
  fun state limit start => engine state (.page table limit start)

variable {σ : Type} (fetch : Fetch σ)

/-- One step: hand out a buffered record, report the end, or ask for a page, which hands out nothing
yet unless it fails. -/
def step (scan : Scan) (state : σ) : Option Item × Scan × σ :=
  match scan.buffer with
  | record :: buffer => (some (.record record), { scan with buffer }, state)
  | [] =>
      if scan.exhausted then (some .finished, scan, state)
      else
        match fetch state scan.pageSize scan.start with
        | (.ok page, state) =>
            (none, ⟨scan.pageSize, page.last, page.records, page.last.isNone⟩, state)
        | (.error error, state) => (some (.failure error), ⟨scan.pageSize, none, [], true⟩, state)

/-- Steps until something is handed out, at most `fuel` of them. -/
def next (fuel : Nat) (scan : Scan) (state : σ) : Option Item × Scan × σ :=
  match fuel with
  | 0 => (none, scan, state)
  | fuel + 1 =>
      match step fetch scan state with
      | (some item, scan, state) => (some item, scan, state)
      | (none, scan, state) => next fuel scan state

/-- Steps until the end or a failure, keeping the records that pass a test; nothing if `fuel` steps
are not enough. -/
def drain (keep : Record → Bool) (fuel : Nat) (scan : Scan) (state : σ) (kept : List Record) :
    Option (Except StoreError (List Record)) × σ :=
  match fuel with
  | 0 => (none, state)
  | fuel + 1 =>
      match step fetch scan state with
      | (some (.record record), scan, state) =>
          drain keep fuel scan state (if keep record then kept ++ [record] else kept)
      | (some (.failure error), _, state) => (some (.error error), state)
      | (some .finished, _, state) => (some (.ok kept), state)
      | (none, scan, state) => drain keep fuel scan state kept

/-- Steps that are enough for any scan of a table with `rows` rows that comes to an end: each row is
handed out once, each page but the last one has a row, and the end is a step. -/
def steps (rows : Nat) : Nat :=
  2 * rows + 3

end Scan

end AccountPool
