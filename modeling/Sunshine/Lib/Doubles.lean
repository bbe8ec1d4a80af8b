import Mathlib.Algebra.Order.Field.Rat
import Mathlib.Algebra.Order.Round
import Mathlib.Data.Int.Log
import Mathlib.Data.Rat.Floor
import Mathlib.Tactic.FieldSimp
import Mathlib.Tactic.Linarith
import Mathlib.Tactic.Positivity
import Mathlib.Tactic.Ring

/-! Rounding of a positive number to the nearest with 53 binary digits, the even one between two, as divisions of doubles do
where they neither overflow nor come near 0. -/
namespace Sunshine.Doubles
set_option autoImplicit false

/-- The nearest integer, and the even one of two. -/
def roundEven (x : ℚ) : ℤ :=
  if x - ⌊x⌋ < 1 / 2 then ⌊x⌋ else if 1 / 2 < x - ⌊x⌋ then ⌊x⌋ + 1 else if Even ⌊x⌋ then ⌊x⌋ else ⌊x⌋ + 1

/-- The distance of the numbers with 53 digits where `x` is. -/
def spacing (x : ℚ) : ℚ := 2 ^ (Int.log 2 x - 52)

def double (x : ℚ) : ℚ := roundEven (x / spacing x) * spacing x

/-- `lround`, of a number that is not negative. -/
def lround (x : ℚ) : ℕ := ⌊x + 1 / 2⌋₊

theorem roundEven_intCast (n : ℤ) : roundEven n = n := by
  unfold roundEven
  rw [Int.floor_intCast, sub_self, if_pos (by norm_num)]

theorem abs_roundEven_sub_le (x : ℚ) : |roundEven x - x| ≤ 1 / 2 := by
  have hfloor := Int.floor_le x
  have hnext := Int.lt_floor_add_one x
  unfold roundEven
  rw [abs_le]
  split_ifs with hbelow habove heven
  · constructor
    · linarith only [hbelow]
    · linarith only [hfloor]
  · push_cast
    constructor
    · linarith only [hnext]
    · linarith only [habove]
  · constructor
    · linarith only [not_lt.mp habove]
    · linarith only [hfloor]
  · push_cast
    constructor
    · linarith only [hnext]
    · linarith only [not_lt.mp hbelow]

theorem spacing_pos (x : ℚ) : 0 < spacing x := zpow_pos (by norm_num) _

theorem spacing_le {x : ℚ} (hx : 0 < x) : spacing x ≤ x / 2 ^ 52 := by
  have hlog := Int.zpow_log_le_self Nat.one_lt_two hx
  unfold spacing
  rw [zpow_sub₀ two_ne_zero, le_div_iff₀ (by positivity)]
  calc (2 : ℚ) ^ Int.log 2 x / 2 ^ (52 : ℤ) * 2 ^ 52 = 2 ^ Int.log 2 x := div_mul_cancel₀ _ (by positivity)
    _ ≤ x := hlog

/-- The error is at most one part of 2^53. -/
theorem abs_double_sub_le {x : ℚ} (hx : 0 < x) : |double x - x| ≤ x / 2 ^ 53 := by
  have hpos := spacing_pos x
  have hround := abs_roundEven_sub_le (x / spacing x)
  have hscaled : double x - x = (roundEven (x / spacing x) - x / spacing x) * spacing x := by
    rw [double, sub_mul, div_mul_cancel₀ x hpos.ne']
  calc |double x - x| = |(roundEven (x / spacing x) - x / spacing x : ℚ)| * spacing x := by
        rw [hscaled, abs_mul, abs_of_pos hpos]
    _ ≤ 1 / 2 * (x / 2 ^ 52) := mul_le_mul hround (spacing_le hx) hpos.le (by norm_num)
    _ = x / 2 ^ 53 := by ring

theorem double_le {x : ℚ} (hx : 0 < x) : double x ≤ x + x / 2 ^ 53 := by
  have h := (abs_le.mp (abs_double_sub_le hx)).2
  linarith only [h]

theorem le_double {x : ℚ} (hx : 0 < x) : x - x / 2 ^ 53 ≤ double x := by
  have h := (abs_le.mp (abs_double_sub_le hx)).1
  linarith only [h]

theorem double_pos {x : ℚ} (hx : 0 < x) : 0 < double x := by
  have hle := le_double hx
  have hpart : x / 2 ^ 53 < x := div_lt_self hx (by norm_num)
  linarith only [hle, hpart]

/-- A number with 53 digits is rounded to itself. -/
theorem double_eq {x : ℚ} {m : ℤ} (h : x = m * spacing x) : double x = x := by
  have hdiv : x / spacing x = m := (div_eq_iff (spacing_pos x).ne').mpr h
  rw [double, hdiv, roundEven_intCast, ← h]

theorem double_natCast {n : ℕ} (hpos : 0 < n) (hlt : n < 2 ^ 53) : double n = n := by
  have hlog : Int.log 2 (n : ℚ) = Nat.log 2 n := Int.log_natCast 2 n
  have hle : Nat.log 2 n ≤ 52 := Nat.lt_succ_iff.mp (Nat.log_lt_of_lt_pow hpos.ne' hlt)
  refine @double_eq _ (n * 2 ^ (52 - Nat.log 2 n) : ℕ) ?_
  have hspacing : spacing n = 1 / 2 ^ (52 - Nat.log 2 n) := by
    rw [spacing, hlog, one_div, ← zpow_natCast, ← zpow_neg]
    congr 1
    push_cast [hle]
    ring
  rw [hspacing]
  push_cast
  rw [mul_assoc, mul_one_div_cancel (by positivity), mul_one]

theorem roundEven_eq {x : ℚ} {n : ℤ} (h : |x - n| < 1 / 2) : roundEven x = n := by
  obtain ⟨hlow, hhigh⟩ := abs_lt.mp h
  obtain hbelow | habove := lt_or_ge x n
  · have hfloor : ⌊x⌋ = n - 1 := by
      refine Int.floor_eq_iff.mpr ⟨?_, ?_⟩
      · push_cast
        linarith only [hlow]
      · push_cast
        linarith only [hbelow]
    unfold roundEven
    rw [hfloor]
    push_cast
    rw [if_neg (by linarith only [hlow]), if_pos (by linarith only [hlow])]
    ring
  · have hfloor : ⌊x⌋ = n := Int.floor_eq_iff.mpr ⟨habove, by linarith only [hhigh]⟩
    unfold roundEven
    rw [hfloor, if_pos hhigh]

/-- The value, from the power of 2 below and the nearest integer. -/
theorem double_eq_of {x : ℚ} {e n : ℤ} (hlow : 2 ^ e ≤ x) (hhigh : x < 2 ^ (e + 1)) (hnear : |x / 2 ^ (e - 52) - n| < 1 / 2) :
    double x = n * 2 ^ (e - 52) := by
  have hx : 0 < x := lt_of_lt_of_le (zpow_pos (by norm_num) e) hlow
  have hlog : Int.log 2 x = e := by
    have hle : e ≤ Int.log 2 x := (Int.zpow_le_iff_le_log Nat.one_lt_two hx).mp hlow
    have hlt : Int.log 2 x < e + 1 := (Int.lt_zpow_iff_log_lt Nat.one_lt_two hx).mp hhigh
    omega
  rw [double, spacing, hlog, roundEven_eq hnear]

/-- Rounding does not bring a quotient below an integer. -/
theorem lt_of_double_lt {a b c : ℕ} (ha : 0 < a) (hb : 0 < b) (hsmall : a < 2 ^ 53) (hc : c < 2 ^ 53)
    (h : double (a / b) < c) : a < c * b := by
  have hb' : (0 : ℚ) < b := Nat.cast_pos.mpr hb
  have ha' : (0 : ℚ) < a := Nat.cast_pos.mpr ha
  by_contra hle
  obtain heq | hlt := (not_lt.mp hle).eq_or_lt
  · have hc' : 0 < c := Nat.pos_of_mul_pos_right (heq ▸ ha)
    have hquotient : (a / b : ℚ) = c := by
      rw [← heq]
      push_cast
      exact mul_div_cancel_right₀ _ hb'.ne'
    rw [hquotient, double_natCast hc' hc] at h
    exact lt_irrefl _ h
  · have hstep : (c * b + 1 : ℚ) ≤ a := by exact_mod_cast hlt
    have hpart : (a / 2 ^ 53 : ℚ) < 1 := (div_lt_one (by positivity)).mpr (by exact_mod_cast hsmall)
    have hrounded := le_double (div_pos ha' hb')
    have hquotient : (c : ℚ) ≤ a / b - a / b / 2 ^ 53 := by
      calc (c : ℚ) = c * b / b := (mul_div_cancel_right₀ _ hb'.ne').symm
        _ ≤ (a - a / 2 ^ 53) / b := by
          refine div_le_div_of_nonneg_right ?_ hb'.le
          linarith only [hstep, hpart]
        _ = a / b - a / b / 2 ^ 53 := by ring
    linarith only [h, hrounded, hquotient]

/-- Rounding twice does not bring a quotient above a fraction that is larger. -/
theorem double_div_le {a b c p q : ℕ} (ha : 0 < a) (hb : 0 < b) (hc : 0 < c) (hp : 0 < p) (hq : 0 < q)
    (hsmall : q * a < 2 ^ 51) (h : q * a < p * (c * b)) : double (double (a / b) / c) ≤ double (p / q) := by
  have ha' : (0 : ℚ) < a := Nat.cast_pos.mpr ha
  have hb' : (0 : ℚ) < b := Nat.cast_pos.mpr hb
  have hc' : (0 : ℚ) < c := Nat.cast_pos.mpr hc
  have hp' : (0 : ℚ) < p := Nat.cast_pos.mpr hp
  have hq' : (0 : ℚ) < q := Nat.cast_pos.mpr hq
  have hstep : (q * a + 1 : ℚ) ≤ p * (c * b) := by exact_mod_cast h
  have hsmall' : (q * a : ℚ) < 2 ^ 51 := by exact_mod_cast hsmall
  have hquotient : double (a / b) ≤ a / b * (1 + 1 / 2 ^ 53) := by
    have hle := double_le (div_pos ha' hb')
    linarith only [hle]
  have hpos : 0 < double (a / b) / c := div_pos (double_pos (div_pos ha' hb')) hc'
  have hbound : (q * a : ℚ) * (1 + 1 / 2 ^ 53) ^ 2 ≤ p * (c * b) * (1 - 1 / 2 ^ 53) := by
    have hgap : (q * a : ℚ) * (1 + 1 / 2 ^ 53) ^ 2 ≤ (q * a + 1) * (1 - 1 / 2 ^ 53) := by
      have hfew : (q * a : ℚ) * (3 / 2 ^ 53 + 1 / 2 ^ 106) ≤ 2 ^ 51 * (3 / 2 ^ 53 + 1 / 2 ^ 106) :=
        mul_le_mul_of_nonneg_right hsmall'.le (by norm_num)
      have hnum : (2 : ℚ) ^ 51 * (3 / 2 ^ 53 + 1 / 2 ^ 106) ≤ 1 - 1 / 2 ^ 53 := by norm_num
      linarith only [hfew, hnum]
    exact hgap.trans (mul_le_mul_of_nonneg_right hstep (by norm_num))
  calc double (double (a / b) / c) ≤ double (a / b) / c * (1 + 1 / 2 ^ 53) := by
        have hle := double_le hpos
        linarith only [hle]
    _ ≤ a / b * (1 + 1 / 2 ^ 53) / c * (1 + 1 / 2 ^ 53) :=
        mul_le_mul_of_nonneg_right (div_le_div_of_nonneg_right hquotient hc'.le) (by norm_num)
    _ = q * a * (1 + 1 / 2 ^ 53) ^ 2 / (q * (c * b)) := by field_simp
    _ ≤ p * (c * b) * (1 - 1 / 2 ^ 53) / (q * (c * b)) := div_le_div_of_nonneg_right hbound (by positivity)
    _ = p / q - p / q / 2 ^ 53 := by field_simp
    _ ≤ double (p / q) := le_double (div_pos hp' hq')

end Sunshine.Doubles
