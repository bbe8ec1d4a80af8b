import Mathlib.Logic.Equiv.Basic
import Mathlib.Logic.Function.Basic

/-! Identifiers out of a pool, each with one holder.

`Exact taken holding` says that the identifiers marked as taken are those that some holder has, and that no two
holders have the same one. Taking, giving back and handing over keep it. -/
namespace Sunshine.Identifiers
open Function
set_option autoImplicit false

variable {ι ο : Type} {taken : ι → Bool} {holding : ο → Option ι}

structure Exact (taken : ι → Bool) (holding : ο → Option ι) : Prop where
  taken_iff : ∀ x, taken x = true ↔ ∃ o, holding o = some x
  unique : ∀ o o' x, holding o = some x → holding o' = some x → o = o'

theorem exact_empty : Exact (fun _ : ι => false) (fun _ : ο => none) := by
  constructor
  · simp
  · simp

namespace Exact

theorem taken_iff_existsUnique (h : Exact taken holding) (x : ι) :
    taken x = true ↔ ∃! o, holding o = some x := by
  rw [h.taken_iff]
  constructor
  · rintro ⟨o, ho⟩
    exact ⟨o, ho, fun o' ho' => h.unique o' o x ho' ho⟩
  · rintro ⟨o, ho, -⟩
    exact ⟨o, ho⟩

theorem not_taken (h : Exact taken holding) (hnone : ∀ o, holding o = none) (x : ι) : taken x = false := by
  rw [Bool.eq_false_iff, ne_eq, h.taken_iff]
  rintro ⟨o, ho⟩
  simp [hnone o] at ho

theorem not_holding (h : Exact taken holding) {x : ι} (hx : taken x = false) (o : ο) : holding o ≠ some x := by
  intro ho
  have htaken := (h.taken_iff x).mpr ⟨o, ho⟩
  simp [hx] at htaken

variable [DecidableEq ι] [DecidableEq ο]

theorem take (h : Exact taken holding) {x : ι} {o : ο} (hx : taken x = false) (ho : holding o = none) :
    Exact (update taken x true) (update holding o (some x)) := by
  constructor
  · intro y
    by_cases hy : y = x
    · subst hy
      simp only [update_self, true_iff]
      exact ⟨o, update_self _ _ _⟩
    · rw [update_of_ne hy, h.taken_iff]
      constructor
      · rintro ⟨o', ho'⟩
        refine ⟨o', ?_⟩
        rw [update_of_ne, ho']
        rintro rfl
        simp [ho] at ho'
      · rintro ⟨o', ho'⟩
        by_cases heq : o' = o
        · subst heq
          rw [update_self, Option.some.injEq] at ho'
          exact absurd ho'.symm hy
        · rw [update_of_ne heq] at ho'
          exact ⟨o', ho'⟩
  · intro o₁ o₂ y h₁ h₂
    by_cases e₁ : o₁ = o <;> by_cases e₂ : o₂ = o
    · rw [e₁, e₂]
    · subst e₁
      rw [update_self, Option.some.injEq] at h₁
      rw [update_of_ne e₂, ← h₁] at h₂
      exact absurd h₂ (h.not_holding hx o₂)
    · subst e₂
      rw [update_self, Option.some.injEq] at h₂
      rw [update_of_ne e₁, ← h₂] at h₁
      exact absurd h₁ (h.not_holding hx o₁)
    · rw [update_of_ne e₁] at h₁
      rw [update_of_ne e₂] at h₂
      exact h.unique o₁ o₂ y h₁ h₂

theorem giveBack (h : Exact taken holding) {x : ι} {o : ο} (ho : holding o = some x) :
    Exact (update taken x false) (update holding o none) := by
  constructor
  · intro y
    by_cases hy : y = x
    · subst hy
      simp only [update_self, Bool.false_eq_true, false_iff]
      rintro ⟨o', ho'⟩
      by_cases heq : o' = o
      · subst heq
        simp at ho'
      · rw [update_of_ne heq] at ho'
        exact heq (h.unique o' o y ho' ho)
    · rw [update_of_ne hy, h.taken_iff]
      constructor
      · rintro ⟨o', ho'⟩
        refine ⟨o', ?_⟩
        rw [update_of_ne, ho']
        rintro rfl
        rw [ho, Option.some.injEq] at ho'
        exact hy ho'.symm
      · rintro ⟨o', ho'⟩
        by_cases heq : o' = o
        · subst heq
          simp at ho'
        · rw [update_of_ne heq] at ho'
          exact ⟨o', ho'⟩
  · intro o₁ o₂ y h₁ h₂
    by_cases e₁ : o₁ = o
    · subst e₁
      simp at h₁
    · by_cases e₂ : o₂ = o
      · subst e₂
        simp at h₂
      · rw [update_of_ne e₁] at h₁
        rw [update_of_ne e₂] at h₂
        exact h.unique o₁ o₂ y h₁ h₂

omit [DecidableEq ι] [DecidableEq ο] in
/-- The holders change places. -/
theorem handOver (h : Exact taken holding) (e : ο ≃ ο) : Exact taken fun o => holding (e o) := by
  constructor
  · intro x
    rw [h.taken_iff]
    constructor
    · rintro ⟨o, ho⟩
      refine ⟨e.symm o, ?_⟩
      rw [e.apply_symm_apply, ho]
    · rintro ⟨o, ho⟩
      exact ⟨e o, ho⟩
  · intro o₁ o₂ x h₁ h₂
    exact e.injective (h.unique _ _ x h₁ h₂)

end Exact

/-- What was taken and given back at once is as before. -/
theorem update_true_false [DecidableEq ι] {x : ι} (hx : taken x = false) :
    update (update taken x true) x false = taken := by
  rw [update_idem, ← hx, update_eq_self]

end Sunshine.Identifiers
