import Mathlib.Algebra.Order.Ring.Rat
import Mathlib.Data.List.Basic
import Mathlib.Data.List.DropRight
import Mathlib.Data.List.TakeWhile
import Mathlib.Data.Nat.Cast.Order.Ring
import Mathlib.Tactic.FieldSimp
import Mathlib.Tactic.Ring
import Sunshine.Lib.Texts

/-! Decimal numbers as texts: what leading zeros, digits that are joined, and zeros behind the point do to the value. -/
namespace Sunshine.Decimals
open Texts
set_option autoImplicit false

variable {digits front back : List Char} {ch : Char}

def isZero (ch : Char) : Bool := ch = '0'

def digitValue (ch : Char) : ℕ := ch.toNat - '0'.toNat

theorem foldl_digits (value : ℕ) (digits : List Char) :
    digits.foldl (fun value ch => value * 10 + digitValue ch) value = value * 10 ^ digits.length + digitsValue digits := by
  induction digits generalizing value with
  | nil => simp [digitsValue]
  | cons ch digits ih =>
    have hrest := ih (digitValue ch)
    have hvalue : digitsValue (ch :: digits) = digits.foldl (fun value ch => value * 10 + digitValue ch) (digitValue ch) := by
      unfold digitsValue
      rw [List.foldl_cons, Nat.zero_mul, Nat.zero_add]
      rfl
    rw [List.foldl_cons, ih, hvalue, hrest, List.length_cons]
    ring

theorem digitsValue_append (front back : List Char) :
    digitsValue (front ++ back) = digitsValue front * 10 ^ back.length + digitsValue back := by
  have hsplit : digitsValue (front ++ back) =
      back.foldl (fun value ch => value * 10 + digitValue ch) (digitsValue front) := by
    unfold digitsValue
    rw [List.foldl_append]
    rfl
  rw [hsplit, foldl_digits]

theorem digitsValue_singleton (ch : Char) : digitsValue [ch] = digitValue ch := by
  unfold digitsValue
  rw [List.foldl_cons, List.foldl_nil, Nat.zero_mul, Nat.zero_add]
  rfl

theorem digitsValue_cons (ch : Char) (digits : List Char) :
    digitsValue (ch :: digits) = digitValue ch * 10 ^ digits.length + digitsValue digits := by
  rw [← digitsValue_singleton ch, ← digitsValue_append]
  rfl

theorem digitValue_zero : digitValue '0' = 0 := rfl

theorem digitsValue_zeros (hzeros : ∀ ch ∈ digits, isZero ch = true) : digitsValue digits = 0 := by
  induction digits with
  | nil => rfl
  | cons ch digits ih =>
    obtain rfl : ch = '0' := of_decide_eq_true (hzeros ch List.mem_cons_self)
    rw [digitsValue_cons, digitValue_zero, Nat.zero_mul, Nat.zero_add]
    exact ih fun other hother => hzeros other (List.mem_cons_of_mem _ hother)

theorem digitsValue_dropZeros (digits : List Char) : digitsValue (digits.dropWhile isZero) = digitsValue digits := by
  conv_rhs => rw [← List.takeWhile_append_dropWhile (p := isZero) (l := digits)]
  rw [digitsValue_append, digitsValue_zeros fun ch hch => List.mem_takeWhile_imp hch]
  omega

theorem digitValue_pos (hdigit : isDigit ch = true) (hzero : isZero ch = false) : 0 < digitValue ch := by
  have hlow : '0' ≤ ch := (of_decide_eq_true hdigit).1
  have hne : ch ≠ '0' := of_decide_eq_false hzero
  have hlt : '0'.toNat < ch.toNat := by
    have hle : '0'.toNat ≤ ch.toNat := hlow
    refine Nat.lt_of_le_of_ne hle fun hsame => hne ?_
    exact (Char.toNat_inj.mp hsame).symm
  exact Nat.sub_pos_of_lt hlt

/-- A number whose last digit is not a zero is positive. -/
theorem digitsValue_pos (hdigits : ∀ ch ∈ digits, isDigit ch = true) (hne : digits.rdropWhile isZero ≠ []) :
    0 < digitsValue (digits.rdropWhile isZero) := by
  have hlast := List.rdropWhile_last_not isZero digits hne
  have hmem : (digits.rdropWhile isZero).getLast hne ∈ digits :=
    (List.rdropWhile_prefix isZero digits).subset (List.getLast_mem hne)
  rw [← List.dropLast_append_getLast hne, digitsValue_append, digitsValue_singleton]
  have hpos := digitValue_pos (hdigits _ hmem) (Bool.eq_false_iff.mpr hlast)
  omega

/-! ## Behind the point -/

/-- The digits behind a point as a number below one. -/
def fraction (digits : List Char) : ℚ := (digitsValue digits : ℚ) / 10 ^ digits.length

theorem fraction_append_zeros (hzeros : ∀ ch ∈ back, isZero ch = true) : fraction (front ++ back) = fraction front := by
  unfold fraction
  rw [digitsValue_append, digitsValue_zeros hzeros, List.length_append, Nat.add_zero, pow_add]
  push_cast
  field_simp

theorem fraction_dropZeros (digits : List Char) : fraction (digits.rdropWhile isZero) = fraction digits := by
  conv_rhs => rw [← List.rdropWhile_append_rtakeWhile (p := isZero) (l := digits)]
  exact (fraction_append_zeros fun ch hch => List.mem_rtakeWhile_imp hch).symm

/-- Without its point a decimal number is a numerator over a power of ten. -/
theorem add_fraction (front back : List Char) :
    (digitsValue front : ℚ) + fraction back = (digitsValue (front ++ back) : ℚ) / 10 ^ back.length := by
  unfold fraction
  rw [digitsValue_append]
  push_cast
  field_simp

end Sunshine.Decimals

/-! Hexadecimal digits, of either case in and of upper case out, and the number that digits stand for. -/
namespace Sunshine.HexDigits
set_option autoImplicit false

variable {ch : Char} {n : ℕ}

def hexDigit (character : Char) : Option ℕ :=
  if '0' ≤ character ∧ character ≤ '9' then some (character.toNat - '0'.toNat)
  else if 'a' ≤ character ∧ character ≤ 'f' then some (character.toNat - 'a'.toNat + 10)
  else if 'A' ≤ character ∧ character ≤ 'F' then some (character.toNat - 'A'.toNat + 10)
  else none

def hexChar (n : ℕ) : Char := if n < 10 then Char.ofNat ('0'.toNat + n) else Char.ofNat ('A'.toNat + (n - 10))

def isHexDigit (ch : Char) : Bool := (hexDigit ch).isSome

/-- The number that digits stand for, from the number that stands in front of them. -/
def hexValueFrom (value : ℕ) (digits : List Char) : ℕ :=
  digits.foldl (fun value ch => value * 16 + (hexDigit ch).getD 0) value

def hexValue (digits : List Char) : ℕ := hexValueFrom 0 digits

theorem hexDigit_hexChar : ∀ n < 16, hexDigit (hexChar n) = some n := by decide

/-- All digits come before the place of `'g'`. -/
theorem toNat_lt (h : hexDigit ch = some n) : ch.toNat < 103 := by
  unfold hexDigit at h
  split_ifs at h with hdecimal hlower hupper
  · exact lt_of_le_of_lt (show ch.toNat ≤ 57 from hdecimal.2) (by decide)
  · exact lt_of_le_of_lt (show ch.toNat ≤ 102 from hlower.2) (by decide)
  · exact lt_of_le_of_lt (show ch.toNat ≤ 70 from hupper.2) (by decide)

theorem digits_below : ∀ k < 103, (hexDigit (Char.ofNat k)).all
    (fun n => decide (n < 16) && hexChar n == (Char.ofNat k).toUpper) = true := by decide

theorem hexChar_hexDigit (h : hexDigit ch = some n) : n < 16 ∧ hexChar n = ch.toUpper := by
  have hdigit := digits_below ch.toNat (toNat_lt h)
  rw [Char.ofNat_toNat, h, Option.all_some, Bool.and_eq_true] at hdigit
  exact ⟨of_decide_eq_true hdigit.1, eq_of_beq hdigit.2⟩

theorem hexValueFrom_lt {value bound : ℕ} (h : value < bound) (digits : List Char) :
    hexValueFrom value digits < bound * 16 ^ digits.length := by
  induction digits generalizing value bound with
  | nil => simpa [hexValueFrom] using h
  | cons ch digits ih =>
    have hdigit : (hexDigit ch).getD 0 < 16 := by
      cases hch : hexDigit ch with
      | none => decide
      | some n => exact (hexChar_hexDigit hch).1
    have hstep : value * 16 + (hexDigit ch).getD 0 < bound * 16 := by omega
    rw [List.length_cons, Nat.pow_succ', ← Nat.mul_assoc]
    exact ih hstep

theorem hexValue_lt (digits : List Char) : hexValue digits < 16 ^ digits.length := by
  have h := hexValueFrom_lt Nat.one_pos digits
  rwa [Nat.one_mul] at h

end Sunshine.HexDigits
