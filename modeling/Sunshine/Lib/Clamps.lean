import Mathlib.Algebra.Order.Field.Basic
import Mathlib.Order.Lattice
import Mathlib.Order.MinMax
import Mathlib.Tactic.Linarith

/-! `std::clamp`, and what it does when its bounds are in order. -/
namespace Sunshine.Clamps
set_option autoImplicit false

section Clamp

variable {A : Type} [LinearOrder A]

def clamp (value low high : A) : A := if value < low then low else if high < value then high else value

variable {value value' low high : A}

theorem clamp_eq (hbounds : low ≤ high) : clamp value low high = max low (min value high) := by
  unfold clamp
  split_ifs with hlow hhigh
  · rw [min_eq_left (hlow.le.trans hbounds), max_eq_left hlow.le]
  · rw [min_eq_right hhigh.le, max_eq_right hbounds]
  · rw [min_eq_left (not_lt.mp hhigh), max_eq_right (not_lt.mp hlow)]

theorem low_le_clamp (hbounds : low ≤ high) : low ≤ clamp value low high := by
  rw [clamp_eq hbounds]
  exact le_max_left _ _

theorem clamp_le_high (hbounds : low ≤ high) : clamp value low high ≤ high := by
  rw [clamp_eq hbounds]
  exact max_le hbounds (min_le_right _ _)

theorem clamp_mono (hbounds : low ≤ high) (hvalue : value ≤ value') : clamp value low high ≤ clamp value' low high := by
  rw [clamp_eq hbounds, clamp_eq hbounds]
  exact max_le_max le_rfl (min_le_min hvalue le_rfl)

theorem clamp_of_mem (hlow : low ≤ value) (hhigh : value ≤ high) : clamp value low high = value := by
  rw [clamp, if_neg hlow.not_gt, if_neg hhigh.not_gt]

/-- Where the value is in bounds, what is between it and a target is so behind the clamp. -/
theorem clamp_between {current target : A} (hlow : low ≤ current) (hhigh : current ≤ high)
    (hvalue : min current target ≤ value ∧ value ≤ max current target) :
    min current target ≤ clamp value low high ∧ clamp value low high ≤ max current target := by
  rw [clamp_eq (hlow.trans hhigh)]
  constructor
  · exact (le_min hvalue.1 ((min_le_left current target).trans hhigh)).trans (le_max_right _ _)
  · exact max_le (hlow.trans (le_max_left current target)) ((min_le_left _ _).trans hvalue.2)

end Clamp
end Sunshine.Clamps

/-! One-pole smoothing: a value goes a part of the way to where it is led.

With a part between 0 and 1 it never goes past. -/
namespace Sunshine.Smoothing
set_option autoImplicit false

variable {K : Type} [Field K] [LinearOrder K] [IsStrictOrderedRing K] {current target alpha low high : K}

def smooth (current target alpha : K) : K := current + (target - current) * alpha

theorem smooth_up (hzero : 0 ≤ alpha) (hone : alpha ≤ 1) (h : current ≤ target) :
    current ≤ smooth current target alpha ∧ smooth current target alpha ≤ target := by
  have hgap : 0 ≤ target - current := sub_nonneg.mpr h
  have hpart : (target - current) * alpha ≤ target - current := mul_le_of_le_one_right hgap hone
  have hnonneg : 0 ≤ (target - current) * alpha := mul_nonneg hgap hzero
  unfold smooth
  constructor <;> linarith

theorem smooth_down (hzero : 0 ≤ alpha) (hone : alpha ≤ 1) (h : target ≤ current) :
    target ≤ smooth current target alpha ∧ smooth current target alpha ≤ current := by
  have hgap : target - current ≤ 0 := sub_nonpos.mpr h
  have hpart : target - current ≤ (target - current) * alpha := le_mul_of_le_one_right hgap hone
  have hnonpos : (target - current) * alpha ≤ 0 := mul_nonpos_of_nonpos_of_nonneg hgap hzero
  unfold smooth
  constructor <;> linarith

/-- Bounds on the value and on where it is led are kept. -/
theorem smooth_mem (hzero : 0 ≤ alpha) (hone : alpha ≤ 1) (hcurrent : low ≤ current ∧ current ≤ high)
    (htarget : low ≤ target ∧ target ≤ high) :
    low ≤ smooth current target alpha ∧ smooth current target alpha ≤ high := by
  rcases le_total current target with h | h
  · obtain ⟨hlow, hhigh⟩ := smooth_up hzero hone h
    exact ⟨hcurrent.1.trans hlow, hhigh.trans htarget.2⟩
  · obtain ⟨hlow, hhigh⟩ := smooth_down hzero hone h
    exact ⟨htarget.1.trans hlow, hhigh.trans hcurrent.2⟩

end Sunshine.Smoothing
