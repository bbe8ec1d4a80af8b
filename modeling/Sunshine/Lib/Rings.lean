import Mathlib.Data.List.Basic
import Mathlib.Data.List.Induction
import Mathlib.Data.Nat.ModEq
import Mathlib.Tactic.Common

/-! A ring of cells that keeps the last elements of a sequence: each stands in the cell of its number modulo the capacity.

The ring grows up to its capacity (`Holds.grow`) and then overwrites its oldest element (`Holds.overwrite`); `Holds.read` reads
the last elements back in order. -/
namespace Sunshine.Rings
set_option autoImplicit false

variable {α : Type} {capacity : ℕ} {sequence cells : List α}

/-- The last elements, as many as there is room for. -/
def kept (capacity : ℕ) (sequence : List α) : List α := sequence.drop (sequence.length - capacity)

structure Holds (capacity : ℕ) (sequence cells : List α) : Prop where
  length : cells.length = min sequence.length capacity
  cell : ∀ i, sequence.length ≤ i + capacity → i < sequence.length → cells[i % capacity]? = sequence[i]?

theorem Holds.nil (capacity : ℕ) : Holds capacity ([] : List α) [] :=
  ⟨(Nat.zero_min capacity).symm, fun _ _ hi => absurd hi (Nat.not_lt_zero _)⟩

theorem Holds.grow (h : Holds capacity sequence cells) (hroom : sequence.length < capacity) (element : α) :
    Holds capacity (sequence ++ [element]) (cells ++ [element]) := by
  have hlength : cells.length = sequence.length := h.length.trans (Nat.min_eq_left hroom.le)
  constructor
  · rw [List.length_append, List.length_append, List.length_singleton, hlength]
    omega
  · intro i _ hi
    rw [List.length_append, List.length_singleton] at hi
    rw [Nat.mod_eq_of_lt (by omega)]
    by_cases hnew : i = sequence.length
    · rw [hnew, List.getElem?_concat_length, ← hlength, List.getElem?_concat_length]
    · have hcell := h.cell i (by omega) (by omega)
      rw [Nat.mod_eq_of_lt (by omega)] at hcell
      rw [List.getElem?_append_left (by omega), List.getElem?_append_left (by omega), hcell]

/-- The cells of the last elements are all different. -/
theorem mod_ne {i n : ℕ} (hlow : n < i + capacity) (hhigh : i < n) : i % capacity ≠ n % capacity := by
  intro heq
  have hle : capacity ≤ n - i := Nat.le_of_dvd (by omega) ((Nat.modEq_iff_dvd' hhigh.le).mp heq)
  omega

theorem Holds.overwrite (h : Holds capacity sequence cells) (hpos : 0 < capacity) (hfull : capacity ≤ sequence.length)
    (element : α) : Holds capacity (sequence ++ [element]) (cells.set (sequence.length % capacity) element) := by
  have hlength : cells.length = capacity := h.length.trans (Nat.min_eq_right hfull)
  constructor
  · rw [List.length_set, List.length_append, List.length_singleton, hlength]
    omega
  · intro i hlow hi
    rw [List.length_append, List.length_singleton] at hlow hi
    by_cases hnew : i = sequence.length
    · have hin : sequence.length % capacity < cells.length := by
        rw [hlength]
        exact Nat.mod_lt _ hpos
      rw [hnew, List.getElem?_concat_length, List.getElem?_set_self hin]
    · rw [List.getElem?_set_ne (mod_ne (by omega) (by omega)).symm, List.getElem?_append_left (by omega)]
      exact h.cell i (by omega) (by omega)

/-- Elements that are read one by one. -/
theorem mapM_range {read : ℕ → Option α} {l : List α} (h : ∀ i < l.length, read i = l[i]?) :
    (List.range l.length).mapM read = some l := by
  induction l using List.reverseRecOn with
  | nil => rfl
  | append_singleton l element ih =>
    have hfront : (List.range l.length).mapM read = some l := ih fun i hi => by
      rw [h i (by rw [List.length_append]; omega), List.getElem?_append_left hi]
    have hlast : read l.length = some element := by
      rw [h l.length (by simp), List.getElem?_concat_length]
    rw [List.length_append, List.length_singleton, List.range_succ, List.mapM_append, hfront, List.mapM_cons, hlast]
    rfl

theorem length_kept (capacity : ℕ) (sequence : List α) : (kept capacity sequence).length = min sequence.length capacity := by
  unfold kept
  rw [List.length_drop]
  omega

/-- The last elements are read from the oldest on. -/
theorem Holds.read (h : Holds capacity sequence cells) :
    ((List.range (min sequence.length capacity)).mapM fun i =>
      cells[(sequence.length - min sequence.length capacity + i) % capacity]?) = some (kept capacity sequence) := by
  rw [← length_kept]
  refine mapM_range fun i hi => ?_
  rw [length_kept] at hi ⊢
  rw [h.cell _ (by omega) (by omega)]
  unfold kept
  rw [List.getElem?_drop]
  congr 1
  omega

end Sunshine.Rings

/-! A buffer that is filled up to a level: elements are written behind it and taken from the front. -/
namespace Sunshine.FillLevel
set_option autoImplicit false

variable {α : Type} {cells xs : List α} {level n : ℕ}

/-- Writes the elements from a place on. A buffer that is written past its end gets longer. -/
def write (cells : List α) (place : ℕ) (xs : List α) : List α := cells.take place ++ xs ++ cells.drop (place + xs.length)

/-- Moves what is filled behind the first `n` elements to the front. -/
def shift (cells : List α) (level n : ℕ) : List α := write cells 0 ((cells.take level).drop n)

theorem length_write (h : level + xs.length ≤ cells.length) : (write cells level xs).length = cells.length := by
  unfold write
  rw [List.length_append, List.length_append, List.length_take, List.length_drop]
  omega

theorem take_write (h : level ≤ cells.length) (hn : n = xs.length) :
    (write cells level xs).take (level + n) = cells.take level ++ xs := by
  have hlength : level + n = (cells.take level ++ xs).length := by
    rw [List.length_append, List.length_take, Nat.min_eq_left h, hn]
  unfold write
  rw [hlength, List.take_left]

theorem length_shift (h : level ≤ cells.length) : (shift cells level n).length = cells.length := by
  refine length_write ?_
  rw [List.length_drop, List.length_take]
  omega

theorem take_shift (h : level ≤ cells.length) : (shift cells level n).take (level - n) = (cells.take level).drop n := by
  have hlength : level - n = ((cells.take level).drop n).length := by
    rw [List.length_drop, List.length_take, Nat.min_eq_left h]
  have htake := take_write (n := level - n) (Nat.zero_le cells.length) hlength
  rw [Nat.zero_add] at htake
  exact htake

end Sunshine.FillLevel
