import Mathlib.Data.List.Basic
import Mathlib.Algebra.Order.Ring.Nat
import Mathlib.Tactic.Common

/-! Data in several buffers, read as one: the region at an offset, and the pieces of a range.

A region ends with its buffer. `gathered_pieces` says that as many pieces as there are buffers are enough for
every range inside of them. -/
namespace Sunshine.Scatter
set_option autoImplicit false

variable {α : Type}

/-- From the offset to the end of the buffer it lies in. -/
def regionAt : List (List α) → ℕ → List α
  | [], _ => []
  | buffer :: rest, offset =>
    if offset < buffer.length then buffer.drop offset else regionAt rest (offset - buffer.length)

/-- At most so many pieces, each a region with the part of it that is taken. -/
def pieces (buffers : List (List α)) : ℕ → ℕ → ℕ → List (List α × ℕ)
  | 0, _, _ => []
  | count + 1, offset, stop =>
    if offset < stop then
      let region := regionAt buffers offset
      let length := min region.length (stop - offset)
      (region, length) :: pieces buffers count (offset + length) stop
    else []

def gathered (taken : List (List α × ℕ)) : List α := taken.flatMap fun piece => piece.1.take piece.2

@[simp]
theorem gathered_nil : gathered ([] : List (List α × ℕ)) = [] := rfl

@[simp]
theorem gathered_cons (piece : List α × ℕ) (taken : List (List α × ℕ)) :
    gathered (piece :: taken) = piece.1.take piece.2 ++ gathered taken := rfl

/-! ## Regions -/

theorem regionAt_of_lt {buffer : List α} {offset : ℕ} (inside : offset < buffer.length) (rest : List (List α)) :
    regionAt (buffer :: rest) offset = buffer.drop offset := if_pos inside

theorem regionAt_of_le {buffer : List α} {offset : ℕ} (behind : buffer.length ≤ offset) (rest : List (List α)) :
    regionAt (buffer :: rest) offset = regionAt rest (offset - buffer.length) := if_neg (by omega)

theorem regionAt_prefix_drop (buffers : List (List α)) (offset : ℕ) :
    regionAt buffers offset <+: buffers.flatten.drop offset := by
  induction buffers generalizing offset with
  | nil => exact List.nil_prefix
  | cons buffer rest ih =>
    rw [List.flatten_cons]
    by_cases inside : offset < buffer.length
    · rw [regionAt_of_lt inside, List.drop_append_of_le_length inside.le]
      exact List.prefix_append _ _
    · rw [regionAt_of_le (not_lt.mp inside), List.drop_append, List.drop_eq_nil_of_le (not_lt.mp inside),
        List.nil_append]
      exact ih (offset - buffer.length)

theorem regionAt_length_pos (buffers : List (List α)) (offset : ℕ) (inside : offset < buffers.flatten.length) :
    0 < (regionAt buffers offset).length := by
  induction buffers generalizing offset with
  | nil => simp at inside
  | cons buffer rest ih =>
    rw [List.flatten_cons, List.length_append] at inside
    by_cases here : offset < buffer.length
    · rw [regionAt_of_lt here, List.length_drop]
      omega
    · rw [regionAt_of_le (not_lt.mp here)]
      exact ih _ (by omega)

theorem dvd_regionAt_length (w : ℕ) (buffers : List (List α)) (aligned : ∀ buffer ∈ buffers, w ∣ buffer.length)
    (offset : ℕ) (multiple : w ∣ offset) : w ∣ (regionAt buffers offset).length := by
  induction buffers generalizing offset with
  | nil => exact Nat.dvd_zero w
  | cons buffer rest ih =>
    have here := aligned buffer (List.mem_cons_self ..)
    by_cases inside : offset < buffer.length
    · rw [regionAt_of_lt inside, List.length_drop]
      exact Nat.dvd_sub here multiple
    · rw [regionAt_of_le (not_lt.mp inside)]
      exact ih (fun later mem => aligned later (List.mem_cons_of_mem buffer mem)) _ (Nat.dvd_sub multiple here)

/-- A block lies in one buffer. -/
theorem take_regionAt (w : ℕ) (buffers : List (List α)) (aligned : ∀ buffer ∈ buffers, w ∣ buffer.length)
    (index : ℕ) (inside : (index + 1) * w ≤ buffers.flatten.length) :
    (regionAt buffers (index * w)).take w = (buffers.flatten.drop (index * w)).take w := by
  obtain rfl | positive := Nat.eq_zero_or_pos w
  · simp
  · rw [Nat.succ_mul] at inside
    have long : w ≤ (regionAt buffers (index * w)).length :=
      Nat.le_of_dvd (regionAt_length_pos buffers _ (by omega))
        (dvd_regionAt_length w buffers aligned _ (Nat.dvd_mul_left w index))
    obtain ⟨rest, whole⟩ := regionAt_prefix_drop buffers (index * w)
    rw [← whole, List.take_append_of_le_length long]

/-! ## Pieces -/

theorem pieces_of_le (buffers : List (List α)) (count : ℕ) {offset stop : ℕ} (done : stop ≤ offset) :
    pieces buffers count offset stop = [] := by
  cases count with
  | zero => rfl
  | succ count => exact if_neg (by omega)

theorem pieces_behind (buffer : List α) (rest : List (List α)) (count offset stop : ℕ)
    (behind : buffer.length ≤ offset) :
    pieces (buffer :: rest) count offset stop =
      pieces rest count (offset - buffer.length) (stop - buffer.length) := by
  induction count generalizing offset with
  | zero => rfl
  | succ count ih =>
    by_cases more : offset < stop
    · rw [pieces, if_pos more, pieces, if_pos (by omega), regionAt_of_le behind]
      simp only
      rw [ih _ (by omega), show stop - buffer.length - (offset - buffer.length) = stop - offset by omega,
        Nat.sub_add_comm behind]
    · rw [pieces_of_le _ _ (by omega), pieces_of_le _ _ (by omega)]

theorem gathered_pieces (buffers : List (List α)) (count offset stop : ℕ) (enough : buffers.length ≤ count)
    (inside : stop ≤ buffers.flatten.length) :
    gathered (pieces buffers count offset stop) = (buffers.flatten.drop offset).take (stop - offset) := by
  induction buffers generalizing count offset stop with
  | nil =>
    rw [pieces_of_le _ _ (by simp at inside; omega)]
    simp
  | cons buffer rest ih =>
    rw [List.flatten_cons, List.length_append] at inside
    rw [List.length_cons] at enough
    rw [List.flatten_cons]
    by_cases behind : buffer.length ≤ offset
    · rw [pieces_behind buffer rest count offset stop behind, ih _ _ _ (by omega) (by omega), List.drop_append,
        List.drop_eq_nil_of_le behind, List.nil_append]
      congr 1
      omega
    · by_cases more : offset < stop
      · obtain ⟨count, rfl⟩ : ∃ fewer, count = fewer + 1 := ⟨count - 1, by omega⟩
        rw [pieces, if_pos more, regionAt_of_lt (by omega)]
        simp only [gathered_cons, List.length_drop]
        rw [List.drop_append_of_le_length (by omega), List.take_append, List.length_drop]
        by_cases last : stop ≤ buffer.length
        · -- the range ends in this buffer
          rw [pieces_of_le _ _ (by omega), gathered_nil, Nat.min_eq_right (by omega),
            show stop - offset - (buffer.length - offset) = 0 by omega, List.take_zero]
        · have whole : (buffer.drop offset).length ≤ stop - offset := by
            rw [List.length_drop]
            omega
          rw [Nat.min_eq_left (by omega), pieces_behind _ _ _ _ _ (by omega), ih _ _ _ (by omega) (by omega),
            List.take_of_length_le whole, List.take_of_length_le (List.length_drop).le,
            show offset + (buffer.length - offset) - buffer.length = 0 by omega, List.drop_zero,
            show stop - buffer.length - 0 = stop - offset - (buffer.length - offset) by omega]
      · rw [pieces_of_le _ _ (by omega), Nat.sub_eq_zero_of_le (by omega)]
        simp

end Sunshine.Scatter
