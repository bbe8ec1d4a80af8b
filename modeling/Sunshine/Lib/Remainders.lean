import Mathlib.Algebra.Order.BigOperators.Group.List
import Mathlib.Algebra.Order.Ring.Int
import Mathlib.Data.Int.GCD
import Mathlib.Data.Nat.ModEq
import Mathlib.Tactic.Common

/-! A remainder that is carried from one amount to the next.

`carry n v l` adds the amounts `l` to `v` one by one and keeps what truncating division by `n` leaves. As long
as all amounts have one sign, only their sum counts. -/
namespace Sunshine.Remainders
set_option autoImplicit false

/-- Nothing but zeros beside one sign. -/
def OneSign (l : List ℤ) : Prop := (∀ a ∈ l, 0 ≤ a) ∨ ∀ a ∈ l, a ≤ 0

def carry (n v : ℤ) (l : List ℤ) : ℤ := l.foldl (fun v a => (v + a).tmod n) v

section Truncation

variable {n v x d : ℤ}

theorem tmod_of_small (hlow : -n < x) (hhigh : x < n) : x.tmod n = x := by
  rcases Int.le_total 0 x with hx | hx
  · exact Int.tmod_eq_of_lt hx hhigh
  · have hneg := Int.tmod_eq_of_lt (a := -x) (b := n) (by omega) (by omega)
    rw [Int.neg_tmod] at hneg
    omega

theorem tmod_bounds (hn : 0 < n) (x : ℤ) : -n < x.tmod n ∧ x.tmod n < n := by
  rcases Int.le_total 0 x with hx | hx
  · rw [Int.tmod_eq_emod_of_nonneg hx]
    have hnonneg := Int.emod_nonneg x hn.ne'
    exact ⟨by omega, Int.emod_lt_of_pos x hn⟩
  · have hneg := Int.neg_tmod x n
    rw [Int.tmod_eq_emod_of_nonneg (by omega)] at hneg
    have hnonneg := Int.emod_nonneg (-x) hn.ne'
    have hlt := Int.emod_lt_of_pos (-x) hn
    omega

/-- The remainder may be taken before an amount that leads upwards, and it does not pass zero on its own. -/
theorem tmod_add_of_nonneg (hn : 0 < n) (hx : -n < x) (hd : 0 ≤ d) : (x.tmod n + d).tmod n = (x + d).tmod n := by
  rcases Int.le_total 0 x with h | h
  · have hnonneg := Int.emod_nonneg x hn.ne'
    rw [Int.tmod_eq_emod_of_nonneg h, Int.tmod_eq_emod_of_nonneg (by omega), Int.tmod_eq_emod_of_nonneg (by omega),
      Int.emod_add_emod]
  · rw [tmod_of_small hx (by omega)]

theorem carry_nonneg (hn : 0 < n) {l : List ℤ} (hl : ∀ a ∈ l, 0 ≤ a) (hlow : -n < v) (hhigh : v < n) :
    carry n v l = (v + l.sum).tmod n := by
  induction l generalizing v with
  | nil =>
    rw [List.sum_nil, Int.add_zero, tmod_of_small hlow hhigh]
    rfl
  | cons a l ih =>
    obtain ⟨ha, hl⟩ := List.forall_mem_cons.mp hl
    obtain ⟨hlow', hhigh'⟩ := tmod_bounds hn (v + a)
    have hsum : 0 ≤ l.sum := List.sum_nonneg hl
    calc carry n v (a :: l) = carry n ((v + a).tmod n) l := rfl
      _ = ((v + a).tmod n + l.sum).tmod n := ih hl hlow' hhigh'
      _ = (v + a + l.sum).tmod n := tmod_add_of_nonneg hn (by omega) hsum
      _ = (v + (a :: l).sum).tmod n := by rw [List.sum_cons, Int.add_assoc]

theorem carry_neg (l : List ℤ) : carry n (-v) (l.map fun a => -a) = -carry n v l := by
  induction l generalizing v with
  | nil => rfl
  | cons a l ih =>
    have hstep : (-v + -a).tmod n = -((v + a).tmod n) := by
      rw [← Int.neg_add, Int.neg_tmod]
    calc carry n (-v) ((a :: l).map fun a => -a) = carry n ((-v + -a).tmod n) (l.map fun a => -a) := rfl
      _ = -carry n ((v + a).tmod n) l := by rw [hstep, ih]

theorem carry_nonpos (hn : 0 < n) {l : List ℤ} (hl : ∀ a ∈ l, a ≤ 0) (hlow : -n < v) (hhigh : v < n) :
    carry n v l = (v + l.sum).tmod n := by
  have hneg := carry_nonneg (v := -v) (l := l.map fun a => -a) hn
    (List.forall_mem_map.mpr fun a ha => Int.neg_nonneg_of_nonpos (hl a ha)) (by omega) (by omega)
  rw [carry_neg, ← List.sum_neg, ← Int.neg_add, Int.neg_tmod] at hneg
  exact Int.neg_inj.mp hneg

/-- The remainder depends on the sum only. -/
theorem carry_eq (hn : 0 < n) {l : List ℤ} (hl : OneSign l) (hlow : -n < v) (hhigh : v < n) :
    carry n v l = (v + l.sum).tmod n := by
  rcases hl with hl | hl
  · exact carry_nonneg hn hl hlow hhigh
  · exact carry_nonpos hn hl hlow hhigh

end Truncation

end Sunshine.Remainders

/-! The remainders that the terms of an arithmetic progression leave: the smallest of them is the first term's remainder by
the greatest common divisor of step and modulus. -/
namespace Sunshine.Residues
set_option autoImplicit false

variable (k step start : ℕ)

theorem remainder_ge (d : ℕ) : start % Nat.gcd step k ≤ (d * step + start) % k := by
  have hterm : (d * step + start) % Nat.gcd step k = start % Nat.gcd step k := by
    obtain ⟨factor, hfactor⟩ := Nat.gcd_dvd_left step k
    have hmultiple : d * step = Nat.gcd step k * (factor * d) := by
      calc d * step = d * (Nat.gcd step k * factor) := by rw [← hfactor]
        _ = Nat.gcd step k * (factor * d) := by rw [Nat.mul_left_comm, Nat.mul_comm d]
    rw [hmultiple, Nat.mul_add_mod]
  rw [← hterm, ← Nat.mod_mod_of_dvd _ (Nat.gcd_dvd_right step k)]
  exact Nat.mod_le _ _

theorem exists_remainder (hk : 0 < k) : ∃ d < k, (d * step + start) % k = start % Nat.gcd step k := by
  by_cases hwhole : Nat.gcd step k = k
  · refine ⟨0, hk, ?_⟩
    rw [Nat.zero_mul, Nat.zero_add, hwhole]
  · have hless : Nat.gcd step k < k := lt_of_le_of_ne (Nat.gcd_le_right step hk) hwhole
    obtain ⟨m, -, hm⟩ := Nat.exists_mul_mod_eq_gcd hless
    -- as often as takes away all of the first term that the divisor goes into
    refine ⟨m * (start / Nat.gcd step k) * (k - 1) % k, Nat.mod_lt _ hk, ?_⟩
    have hstep : m * step ≡ Nat.gcd step k [MOD k] := by
      rw [Nat.mul_comm m, Nat.ModEq, hm, Nat.mod_eq_of_lt hless]
    have hterm : m * (start / Nat.gcd step k) * (k - 1) % k * step + start ≡ start % Nat.gcd step k [MOD k] :=
      calc m * (start / Nat.gcd step k) * (k - 1) % k * step + start
          ≡ m * (start / Nat.gcd step k) * (k - 1) * step + start [MOD k] :=
            ((Nat.mod_modEq _ k).mul_right step).add_right start
        _ = m * step * (start / Nat.gcd step k * (k - 1)) + start := by
            rw [Nat.mul_assoc m, Nat.mul_right_comm m]
        _ ≡ Nat.gcd step k * (start / Nat.gcd step k * (k - 1)) + start [MOD k] :=
            (hstep.mul_right _).add_right start
        _ = Nat.gcd step k * (start / Nat.gcd step k * (k - 1)) +
            (Nat.gcd step k * (start / Nat.gcd step k) + start % Nat.gcd step k) := by rw [Nat.div_add_mod]
        _ = Nat.gcd step k * (start / Nat.gcd step k) * k + start % Nat.gcd step k := by
            rw [← Nat.add_assoc, ← Nat.mul_assoc, ← Nat.mul_succ, Nat.succ_eq_add_one, Nat.sub_add_cancel hk]
        _ ≡ start % Nat.gcd step k [MOD k] := by
            rw [Nat.ModEq, Nat.mul_add_mod_self_right]
    have hsmall : start % Nat.gcd step k < k :=
      (Nat.mod_lt _ (Nat.gcd_pos_of_pos_right step hk)).trans hless
    exact Eq.trans hterm (Nat.mod_eq_of_lt hsmall)

end Sunshine.Residues
