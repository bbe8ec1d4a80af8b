import Mathlib.Data.List.Basic
import Mathlib.Data.List.Nodup

/-! Occurrence numbers: the elements of a list, each with the number of equal ones before it. -/
namespace Sunshine.Occurrences
set_option autoImplicit false

variable {α β : Type} [DecidableEq α]

/-- `seen` counts what came before the list. -/
def numbered : (α → ℕ) → List α → List (α × ℕ)
  | _, [] => []
  | seen, a :: l => (a, seen a) :: numbered (Function.update seen a (seen a + 1)) l

theorem mem_numbered (seen : α → ℕ) (l : List α) (a : α) (k : ℕ) :
    (a, k) ∈ numbered seen l ↔ seen a ≤ k ∧ k < seen a + l.count a := by
  induction l generalizing seen with
  | nil =>
    simp only [numbered, List.not_mem_nil, List.count_nil, false_iff]
    omega
  | cons b l ih =>
    rw [numbered, List.mem_cons, ih, Prod.mk.injEq]
    by_cases hab : a = b
    · subst hab
      rw [Function.update_self, List.count_cons_self]
      constructor
      · rintro (⟨-, rfl⟩ | hrest) <;> omega
      · intro hk
        by_cases hfirst : k = seen a
        · exact Or.inl ⟨rfl, hfirst⟩
        · exact Or.inr (by omega)
    · rw [Function.update_of_ne hab, List.count_cons_of_ne (Ne.symm hab)]
      exact ⟨fun h => h.resolve_left fun e => hab e.1, Or.inr⟩

theorem nodup_numbered (seen : α → ℕ) (l : List α) : (numbered seen l).Nodup := by
  induction l generalizing seen with
  | nil => exact List.nodup_nil
  | cons a l ih =>
    refine List.nodup_cons.mpr ⟨fun hmem => ?_, ih _⟩
    -- later occurrences have larger numbers
    rw [mem_numbered, Function.update_self] at hmem
    omega

/-- A function of the numbered elements repeats no value exactly when it tells them apart. -/
theorem nodup_map_numbered_iff (seen : α → ℕ) (l : List α) (f : α × ℕ → β) :
    ((numbered seen l).map f).Nodup ↔
      ∀ x ∈ numbered seen l, ∀ y ∈ numbered seen l, f x = f y → x = y :=
  List.nodup_map_iff_inj_on (nodup_numbered seen l)

end Sunshine.Occurrences
