import Mathlib.Data.List.Basic
import Mathlib.Tactic.Common

/-! Sequences made of whole frames of one width, each element at its place in its frame. -/
namespace Sunshine.Frames
set_option autoImplicit false

variable {α : Type} {width n : ℕ} {good : ℕ → α → Prop} {l m : List α}

/-- `good place a` says that the element may stand at that place of a frame. -/
structure Framed (width : ℕ) (good : ℕ → α → Prop) (l : List α) : Prop where
  whole : width ∣ l.length
  inPlace : ∀ i a, l[i]? = some a → good (i % width) a

theorem framed_nil : Framed width good [] := ⟨Nat.dvd_zero width, fun _ _ h => (by cases h)⟩

/-- Behind whole frames a new one begins. -/
theorem framed_append_iff (h : Framed width good l) : Framed width good (l ++ m) ↔ Framed width good m := by
  constructor
  · intro hall
    refine ⟨?_, fun i a hi => ?_⟩
    · have hwhole := hall.whole
      rw [List.length_append] at hwhole
      exact (Nat.dvd_add_right h.whole).mp hwhole
    · have hshift : (l ++ m)[l.length + i]? = m[i]? := by
        rw [List.getElem?_append_right (Nat.le_add_right _ _), Nat.add_sub_cancel_left]
      have hplace := hall.inPlace (l.length + i) a (hshift.trans hi)
      rw [Nat.add_mod, Nat.mod_eq_zero_of_dvd h.whole, Nat.zero_add, Nat.mod_mod] at hplace
      exact hplace
  · intro hm
    refine ⟨?_, fun i a hi => ?_⟩
    · rw [List.length_append]
      exact Nat.dvd_add h.whole hm.whole
    · by_cases hlt : i < l.length
      · rw [List.getElem?_append_left hlt] at hi
        exact h.inPlace i a hi
      · obtain ⟨j, rfl⟩ := Nat.exists_eq_add_of_le (Nat.not_lt.mp hlt)
        rw [List.getElem?_append_right (Nat.le_add_right _ _), Nat.add_sub_cancel_left] at hi
        rw [Nat.add_mod, Nat.mod_eq_zero_of_dvd h.whole, Nat.zero_add, Nat.mod_mod]
        exact hm.inPlace j a hi

theorem framed_drop_iff (h : Framed width good l) (hn : n ≤ l.length) :
    Framed width good (l.drop n) ↔ width ∣ n := by
  constructor
  · intro hrest
    have hwhole := hrest.whole
    rw [List.length_drop] at hwhole
    have hsub := Nat.dvd_sub h.whole hwhole
    rw [Nat.sub_sub_self hn] at hsub
    exact hsub
  · intro hdvd
    refine ⟨?_, fun i a hi => ?_⟩
    · rw [List.length_drop]
      exact Nat.dvd_sub h.whole hdvd
    · rw [List.getElem?_drop] at hi
      have hplace := h.inPlace (n + i) a hi
      rw [Nat.add_mod, Nat.mod_eq_zero_of_dvd hdvd, Nat.zero_add, Nat.mod_mod] at hplace
      exact hplace

theorem framed_take (h : Framed width good l) (hn : n ≤ l.length) (hdvd : width ∣ n) : Framed width good (l.take n) := by
  refine ⟨?_, fun i a hi => ?_⟩
  · rw [List.length_take, Nat.min_eq_left hn]
    exact hdvd
  · rw [List.getElem?_take] at hi
    split_ifs at hi
    exact h.inPlace i a hi

end Sunshine.Frames
