import Mathlib.Algebra.BigOperators.Group.List.Basic
import Mathlib.Algebra.Order.Field.Rat
import Mathlib.Algebra.Order.BigOperators.Group.List
import Mathlib.Tactic.Linarith
import Mathlib.Tactic.NormNum
import Mathlib.Tactic.Ring
import Sunshine.Lib.Extremum
import Sunshine.Lib.Transitions
import Sunshine.Lib.Threads
import Sunshine.Session.History

/-! `metric_accumulator_t`, one atomic access at a time: any number of `collect` and `snapshot` calls between which the
accesses may be interleaved in every order. Sums are exact.

`collect` adds to the number of samples first, then to their sum, and then runs a loop for the minimum and one for the
maximum; `snapshot` loads the number, the minimum, the maximum and the sum. A snapshot between the accesses of a `collect`
sees a sample in one cell that is not in another: the infinities are in it when it comes before the first minimum. -/
namespace Sunshine.LatencyCells
open Extremum Session Transitions
set_option autoImplicit false

/-! ## The calls -/

/-- A call of `collect` that has made its first access; `value` is what it has made of its argument. -/
structure Collector where
  value : ℚ
  added : Bool
  min : Progress ℚ
  max : Progress ℚ
  deriving DecidableEq

def Collector.finished (c : Collector) : Bool := c.added ∧ c.min = .settled ∧ c.max = .settled

/-- A snapshot; `none` is an infinity. -/
structure Snapshot where
  min : Option ℚ
  max : Option ℚ
  avg : ℚ
  samples : ℕ
  deriving DecidableEq

/-- A call of `snapshot` that has loaded so much. -/
inductive Reader where
  | counted (s : ℕ)
  | lowest (s : ℕ) (low : Option ℚ)
  | highest (s : ℕ) (low high : Option ℚ)
  | returned (result : Snapshot)
  deriving DecidableEq

/-- The cells, and the calls so far. -/
structure State where
  cells : MetricAccumulator := {}
  collectors : List Collector := []
  readers : List Reader := []
  deriving DecidableEq

/-- `samples.fetch_add`, of a call that begins. -/
def begin (value : Option ℚ) (s : State) : State :=
  { s with
    cells := { s.cells with samples := (s.cells.samples + 1) % 4294967296 }
    collectors := s.collectors ++ [⟨clampSample value, false, .pending, .pending⟩] }

/-- The next access of a `collect`: to the sum, the minimum or the maximum. -/
def Collector.advance (spurious : Bool) (c : Collector) (cells : MetricAccumulator) : Collector × MetricAccumulator :=
  if ¬c.added then ({ c with added := true }, { cells with total := cells.total + c.value })
  else if c.min ≠ .settled then
    let next := access (· < ·) spurious c.value cells.min c.min
    ({ c with min := next.1 }, { cells with min := next.2 })
  else
    let next := access (· > ·) spurious c.value cells.max c.max
    ({ c with max := next.1 }, { cells with max := next.2 })

/-- `samples.load`, of a snapshot that begins. -/
def Reader.begin (cells : MetricAccumulator) : Reader :=
  if 0 < cells.samples then .counted cells.samples else .returned ⟨some 0, some 0, 0, 0⟩

def Reader.advance (cells : MetricAccumulator) : Reader → Reader
  | .counted s => .lowest s cells.min
  | .lowest s low => .highest s low cells.max
  | .highest s low high => .returned ⟨low, high, cells.total / s, s⟩
  | .returned result => .returned result

inductive Event where
  | collect (value : Option ℚ)
  | collector (i : ℕ) (spurious : Bool)
  | snapshot
  | reader (j : ℕ)
  deriving DecidableEq

def next (s : State) : Event → State
  | .collect value => begin value s
  | .collector i spurious =>
    match s.collectors[i]? with
    | none => s
    | some c =>
      let moved := c.advance spurious s.cells
      { s with cells := moved.2, collectors := s.collectors.set i moved.1 }
  | .snapshot => { s with readers := s.readers ++ [Reader.begin s.cells] }
  | .reader j =>
    match s.readers[j]? with
    | none => s
    | some r => { s with readers := s.readers.set j (r.advance s.cells) }

/-! ## What is claimed -/

/-- A snapshot that reports samples has numbers in order in it, and no infinity. -/
def Snapshot.Coherent (result : Snapshot) : Prop :=
  0 < result.samples → ∃ low high, result.min = some low ∧ result.max = some high ∧
    0 ≤ low ∧ low ≤ result.avg ∧ result.avg ≤ high ∧ high ≤ 60000

def Coherent (s : State) : Prop := ∀ result, Reader.returned result ∈ s.readers → result.Coherent

/-- The cells have exactly these values in them, and give their mean. -/
structure Exact (cells : MetricAccumulator) (values : List ℚ) : Prop where
  samples : cells.samples = values.length
  min : cells.min = values.min?
  max : cells.max = values.max?
  avg : cells.snapshot.avg = values.sum / values.length

/-- With no call of `collect` under way the cells are exact. -/
def ExactWhenIdle (s : State) : Prop :=
  (∀ c ∈ s.collectors, c.finished = true) → Exact s.cells (s.collectors.map Collector.value)

/-! ## The conditions on the steps -/

/-- The number of samples does not pass its 32 bits. -/
def NoWrap (s : State) : Event → Prop
  | .collect _ => s.cells.samples + 1 < 4294967296
  | _ => True

def Reader.Open : Reader → Prop
  | .returned _ => False
  | _ => True

/-- What a load of a snapshot must not fall between. -/
def Reader.Undisturbed (s : State) : Reader → Prop
  | .counted _ => ∀ c ∈ s.collectors, c.added = true → ¬Before (· < ·) c.value s.cells.min
  | .lowest _ _ => ∀ c ∈ s.collectors, c.added = true → ¬Before (· > ·) c.value s.cells.max
  | _ => True

/-- A snapshot loads the number of samples while no `collect` is between its two additions, nothing is added to the sum
until it has loaded it, and it loads the minimum and the maximum while no `collect` that has added to the sum has still to
lower the one or raise the other. -/
def Apart (s : State) : Event → Prop
  | .collect _ => True
  | .collector i _ => ∀ c ∈ s.collectors[i]?, c.added = false → ∀ r ∈ s.readers, ¬r.Open
  | .snapshot => ∀ c ∈ s.collectors, c.added = true
  | .reader j => ∀ r ∈ s.readers[j]?, r.Undisturbed s

end Sunshine.LatencyCells
