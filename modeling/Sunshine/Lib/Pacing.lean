import Mathlib.Algebra.Order.Ring.Int
import Mathlib.Data.List.Basic
import Mathlib.Tactic.Linarith
import Mathlib.Tactic.Ring

/-! A deadline that moves by whole intervals, and the times that it lets through.

A time is taken where it is not before the deadline, which is then moved by as many intervals as it takes to lie behind the
time. `spaced_append` is what that says of the distances of the times taken. -/
namespace Sunshine.Pacing
set_option autoImplicit false

/-- `do due += interval; while (due <= now);`, with a bound for the iterations. -/
def catchUp (interval now : ℤ) : ℕ → ℤ → Option ℤ
  | 0, _ => none
  | fuel + 1, due => if due + interval ≤ now then catchUp interval now fuel (due + interval) else some (due + interval)

/-- The loop, with a bound that is large enough where it ends. -/
def advance (interval due now : ℤ) : Option ℤ := catchUp interval now ((now - due).toNat + 1) due

section Loop
variable {interval due due' now : ℤ} {fuel : ℕ}

theorem catchUp_some (hinterval : 0 ≤ interval) (h : catchUp interval now fuel due = some due') :
    now < due' ∧ due + interval ≤ due' := by
  induction fuel generalizing due with
  | zero => cases h
  | succ fuel ih =>
    unfold catchUp at h
    split_ifs at h with hagain
    · obtain ⟨hnow, hdue⟩ := ih h
      exact ⟨hnow, by linarith only [hinterval, hdue]⟩
    · obtain rfl := Option.some.inj h
      exact ⟨not_le.mp hagain, le_rfl⟩

theorem catchUp_ends (hinterval : 0 < interval) (hfuel : now - due < fuel) (hpos : fuel ≠ 0) :
    ∃ due', catchUp interval now fuel due = some due' := by
  induction fuel generalizing due with
  | zero => exact absurd rfl hpos
  | succ fuel ih =>
    unfold catchUp
    split_ifs with hagain
    · exact ih (by push_cast at hfuel; linarith) (by rintro rfl; push_cast at hfuel; linarith)
    · exact ⟨_, rfl⟩

/-- A loop over an interval that is not positive does not end. -/
theorem catchUp_none (hinterval : interval ≤ 0) (hdue : due ≤ now) (fuel : ℕ) : catchUp interval now fuel due = none := by
  induction fuel generalizing due with
  | zero => rfl
  | succ fuel ih =>
    have hnext : due + interval ≤ now := by linarith only [hinterval, hdue]
    unfold catchUp
    rw [if_pos hnext, ih hnext]

theorem advance_some (hinterval : 0 ≤ interval) (h : advance interval due now = some due') :
    now < due' ∧ due + interval ≤ due' := catchUp_some hinterval h

theorem advance_ends (hinterval : 0 < interval) (due now : ℤ) : ∃ due', advance interval due now = some due' :=
  catchUp_ends hinterval (by push_cast; exact Int.lt_add_one_of_le (Int.self_le_toNat _)) (Nat.succ_ne_zero _)

end Loop

/-! ## The times taken -/

/-- The time at place `i` and the intervals since then lie before the deadline. -/
def Paced (interval due : ℤ) (times : List ℤ) : Prop :=
  ∀ (i : ℕ) (time : ℤ), times[i]? = some time → time + (times.length - 1 - i : ℤ) * interval < due

/-- Times `k` apart are more than `k - 1` intervals apart. -/
def Spaced (interval : ℤ) (times : List ℤ) : Prop :=
  ∀ (i k : ℕ) (time time' : ℤ), 0 < k → times[i]? = some time → times[i + k]? = some time' →
    time + (k - 1 : ℤ) * interval < time'

section Taken
variable {interval due due' time : ℤ} {times : List ℤ}

/-- All times lie before the deadline. -/
theorem paced_before (hinterval : 0 ≤ interval) (h : Paced interval due times) {i : ℕ} (hi : times[i]? = some time) :
    time < due := by
  obtain ⟨hlt, -⟩ := List.getElem?_eq_some_iff.mp hi
  have hsteps : (0 : ℤ) ≤ (times.length - 1 - i : ℤ) * interval := mul_nonneg (by omega) hinterval
  have hbefore := h i time hi
  linarith only [hsteps, hbefore]

theorem paced_nil (interval due : ℤ) : Paced interval due [] := fun _ _ h => by cases h

theorem spaced_nil (interval : ℤ) : Spaced interval [] := fun _ _ _ _ _ h => by cases h

theorem paced_append (h : Paced interval due times) (htime : time < due') (hdue : due + interval ≤ due') :
    Paced interval due' (times ++ [time]) := by
  intro i other hother
  rw [List.length_append, List.length_singleton]
  push_cast
  by_cases hi : i < times.length
  · rw [List.getElem?_append_left hi] at hother
    have hbefore := h i other hother
    linarith
  · obtain ⟨hlt, -⟩ := List.getElem?_eq_some_iff.mp hother
    rw [List.length_append, List.length_singleton] at hlt
    obtain rfl : i = times.length := by omega
    rw [List.getElem?_concat_length] at hother
    obtain rfl := Option.some.inj hother
    linarith

/-- A time that is not before the deadline is far enough from all others. -/
theorem spaced_append (h : Spaced interval times) (hpaced : Paced interval due times) (htime : due ≤ time) :
    Spaced interval (times ++ [time]) := by
  intro i k other other' hk hother hother'
  by_cases hlast : i + k < times.length
  · rw [List.getElem?_append_left hlast] at hother'
    rw [List.getElem?_append_left (by omega)] at hother
    exact h i k other other' hk hother hother'
  · obtain ⟨hlt, -⟩ := List.getElem?_eq_some_iff.mp hother'
    rw [List.length_append, List.length_singleton] at hlt
    have hik : i + k = times.length := by omega
    rw [hik, List.getElem?_concat_length] at hother'
    obtain rfl := Option.some.inj hother'
    rw [List.getElem?_append_left (by omega)] at hother
    have hbefore := hpaced i other hother
    have hlength : (times.length : ℤ) = i + k := by rw [← hik, Nat.cast_add]
    rw [hlength] at hbefore
    have hsteps : (i + k - 1 - i : ℤ) = k - 1 := by ring
    rw [hsteps] at hbefore
    exact hbefore.trans_le htime

end Taken

end Sunshine.Pacing
