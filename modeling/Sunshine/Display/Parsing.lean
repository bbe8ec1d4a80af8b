import Mathlib.Algebra.Field.Rat
import Mathlib.Tactic.NormNum
import Sunshine.Lib.Decimals
import Sunshine.Lib.Texts

/-! The strings of the display options: `parse_resolution_string` and `parse_refresh_rate_string`.

A refresh rate with decimals becomes a numerator over a power of ten. The numerator has to fit an `unsigned int`, the
power of ten is only cast to one: `parseRefreshRateString_exact_iff` says for which numbers that is the number. -/
namespace Sunshine.Display
open Decimals Texts Trimming
set_option autoImplicit false

abbrev Text := List Char

structure Resolution where
  width : ℕ
  height : ℕ
  deriving DecidableEq

structure Rational where
  numerator : ℕ
  denominator : ℕ
  deriving DecidableEq

/-- `static_cast<unsigned int>` of a whole floating-point number; outside its range any value may come of it. -/
structure UIntCast where
  toUInt : ℕ → ℕ
  exact : ∀ number < 4294967296, toUInt number = number
  bounded : ∀ number, toUInt number < 4294967296

def isSpace (ch : Char) : Bool := ch = ' ' ∨ '\t' ≤ ch ∧ ch ≤ '\r'

def trimCopy (input : Text) : Text := (input.dropWhile isSpace).rdropWhile isSpace

/-- `stou`, for a text that starts with digits; none where it throws. -/
def stou (value : Text) : Option ℕ :=
  let digits := value.takeWhile isDigit
  if digits = [] then none
  else if digitsValue digits ≤ 4294967295 then some (digitsValue digits) else none

/-- The two groups of `^(\d+)x(\d+)$`. -/
def matchResolution (input : Text) : Option (Text × Text) :=
  match input.dropWhile isDigit with
  | 'x' :: height =>
    if input.takeWhile isDigit ≠ [] ∧ height ≠ [] ∧ height.all isDigit then some (input.takeWhile isDigit, height)
    else none
  | _ => none

/-- True with the output written, which may be empty; none is false. -/
def parseResolutionString (input : Text) : Option (Option Resolution) :=
  let trimmed := trimCopy input
  match matchResolution trimmed with
  | some (width, height) => do
    let width ← stou width
    let height ← stou height
    return some ⟨width, height⟩
  | none => if trimmed = [] then some none else none

/-- The groups of `^(\d+)(?:\.(\d+))?$`, and of `^(\d+)$` without a decimal point. -/
def matchRefreshRate (allowDecimalPoint : Bool) (input : Text) : Option (Text × Option Text) :=
  if input.takeWhile isDigit = [] then none
  else
    match input.dropWhile isDigit with
    | [] => some (input.takeWhile isDigit, none)
    | '.' :: decimals =>
      if allowDecimalPoint = true ∧ decimals ≠ [] ∧ decimals.all isDigit then some (input.takeWhile isDigit, some decimals)
      else none
    | _ => none

/-- What a match becomes. -/
def refreshRateOf (cast : UIntCast) (whole : Text) (decimals : Option Text) : Option Rational :=
  let trimmedWhole := whole.dropWhile isZero
  let trimmedWhole := if trimmedWhole = [] then ['0'] else trimmedWhole
  let trimmedDecimals := (decimals.getD []).rdropWhile isZero
  if trimmedDecimals ≠ [] then
    (stou (trimmedWhole ++ trimmedDecimals)).map fun numerator =>
      ⟨numerator, cast.toUInt (10 ^ trimmedDecimals.length)⟩
  else (stou trimmedWhole).map fun numerator => ⟨numerator, 1⟩

def parseRefreshRateString (cast : UIntCast) (allowDecimalPoint : Bool) (input : Text) : Option (Option Rational) :=
  let trimmed := trimCopy input
  match matchRefreshRate allowDecimalPoint trimmed with
  | some (whole, decimals) => (refreshRateOf cast whole decimals).map some
  | none => if trimmed = [] then some none else none

/-! ## Numbers as they are written -/

/-- Digits, perhaps with a point and digits behind them, and blanks around. -/
structure RateText where
  before : Text
  whole : Text
  decimals : Option Text
  behind : Text
  blankBefore : ∀ ch ∈ before, isSpace ch = true
  wholeDigits : whole ≠ [] ∧ ∀ ch ∈ whole, isDigit ch = true
  decimalDigits : ∀ digits ∈ decimals, digits ≠ [] ∧ ∀ ch ∈ digits, isDigit ch = true
  blankBehind : ∀ ch ∈ behind, isSpace ch = true

def RateText.number (rate : RateText) : Text :=
  rate.whole ++ (rate.decimals.map fun digits => '.' :: digits).getD []

def RateText.text (rate : RateText) : Text := rate.before ++ rate.number ++ rate.behind

def RateText.value (rate : RateText) : ℚ := digitsValue rate.whole + fraction (rate.decimals.getD [])

/-- The decimals without the zeros at their end. -/
def RateText.significant (rate : RateText) : Text := (rate.decimals.getD []).rdropWhile isZero

/-- The string is rejected, or the number is the one written. -/
def Exact (cast : UIntCast) (allowDecimalPoint : Bool) (rate : RateText) : Prop :=
  parseRefreshRateString cast allowDecimalPoint rate.text = none ∨
    ∃ result, parseRefreshRateString cast allowDecimalPoint rate.text = some (some result) ∧
      result.denominator ≠ 0 ∧ (result.numerator : ℚ) / result.denominator = rate.value

/-- The power of ten does not fit although the digits of the number do. -/
def Overlong (rate : RateText) : Prop :=
  10 ≤ rate.significant.length ∧ digitsValue (rate.whole ++ rate.significant) ≤ 4294967295

variable {ch : Char} {digits : Text} {rate : RateText} {cast : UIntCast} {allowDecimalPoint : Bool}

theorem isSpace_digit (hdigit : isDigit ch = true) : isSpace ch = false := by
  unfold isSpace
  rw [decide_eq_false_iff_not]
  rintro (rfl | hcontrol)
  · cases hdigit
  · have hlow : '0' ≤ ch := (of_decide_eq_true hdigit).1
    exact absurd (Char.le_trans hlow hcontrol.2) (by decide)

theorem trimCopy_text (rate : RateText) : trimCopy rate.text = rate.number := by
  apply trim_around isSpace rate.blankBefore rate.blankBehind
  · intro ch hch
    obtain ⟨first, rest, hwhole⟩ := List.exists_cons_of_ne_nil rate.wholeDigits.1
    rw [RateText.number, hwhole, List.cons_append, List.head?_cons, Option.mem_some_iff] at hch
    apply isSpace_digit
    apply rate.wholeDigits.2
    rw [hwhole, ← hch]
    exact List.mem_cons_self
  · intro ch hch
    rw [RateText.number] at hch
    cases hdecimals : rate.decimals with
    | none =>
      rw [hdecimals, Option.map_none, Option.getD_none, List.append_nil] at hch
      exact isSpace_digit (rate.wholeDigits.2 ch (List.mem_of_getLast? hch))
    | some digits =>
      obtain ⟨hne, hdigits⟩ := rate.decimalDigits digits hdecimals
      rw [hdecimals, Option.map_some, Option.getD_some, List.getLast?_append_of_ne_nil _ (List.cons_ne_nil _ _)] at hch
      obtain ⟨first, rest, rfl⟩ := List.exists_cons_of_ne_nil hne
      rw [List.getLast?_cons_cons] at hch
      exact isSpace_digit (hdigits ch (List.mem_of_getLast? hch))

theorem matchRefreshRate_number (rate : RateText) (allowDecimalPoint : Bool) :
    matchRefreshRate allowDecimalPoint rate.number =
      if allowDecimalPoint = true ∨ rate.decimals = none then some (rate.whole, rate.decimals) else none := by
  have htail : ((rate.decimals.map fun digits => '.' :: digits).getD []).takeWhile isDigit = [] ∧
      ((rate.decimals.map fun digits => '.' :: digits).getD []).dropWhile isDigit =
        (rate.decimals.map fun digits => '.' :: digits).getD [] := by
    cases rate.decimals with
    | none => exact ⟨rfl, rfl⟩
    | some digits => exact ⟨rfl, rfl⟩
  unfold matchRefreshRate RateText.number
  rw [List.takeWhile_append_of_pos rate.wholeDigits.2, List.dropWhile_append_of_pos rate.wholeDigits.2, htail.1, htail.2,
    List.append_nil, if_neg rate.wholeDigits.1]
  cases hdecimals : rate.decimals with
  | none => exact (if_pos (.inr rfl)).symm
  | some digits =>
    obtain ⟨hne, hdigits⟩ := rate.decimalDigits digits hdecimals
    rw [Option.map_some, Option.getD_some]
    by_cases hallow : allowDecimalPoint = true
    · rw [if_pos (.inl hallow)]
      exact if_pos ⟨hallow, hne, List.all_eq_true.mpr hdigits⟩
    · rw [if_neg (by simp [hallow])]
      exact if_neg fun hboth => hallow hboth.1

theorem stou_digits (hne : digits ≠ []) (hdigits : ∀ ch ∈ digits, isDigit ch = true) :
    stou digits = if digitsValue digits ≤ 4294967295 then some (digitsValue digits) else none := by
  unfold stou
  rw [List.takeWhile_eq_self_iff.mpr hdigits]
  exact if_neg hne

theorem significant_digits (rate : RateText) : ∀ ch ∈ rate.significant, isDigit ch = true := by
  intro ch hch
  have hmem := (List.rdropWhile_prefix isZero _).subset hch
  cases hdecimals : rate.decimals with
  | none =>
    rw [hdecimals] at hmem
    cases hmem
  | some digits =>
    rw [hdecimals] at hmem
    exact (rate.decimalDigits digits hdecimals).2 ch hmem

/-- The digits in front of the point without leading zeros, of which one stays. -/
theorem refreshRateOf_eq (rate : RateText) (cast : UIntCast) :
    refreshRateOf cast rate.whole rate.decimals =
      if digitsValue (rate.whole ++ rate.significant) ≤ 4294967295 then
        some ⟨digitsValue (rate.whole ++ rate.significant),
          if rate.significant = [] then 1 else cast.toUInt (10 ^ rate.significant.length)⟩
      else none := by
  obtain ⟨whole, hwhole⟩ : ∃ whole, whole =
      if rate.whole.dropWhile isZero = [] then ['0'] else rate.whole.dropWhile isZero := ⟨_, rfl⟩
  have hne : whole ≠ [] := by
    rw [hwhole]
    split_ifs with hzero
    · exact List.cons_ne_nil _ _
    · exact hzero
  have hdigits : ∀ ch ∈ whole, isDigit ch = true := by
    intro ch hch
    rw [hwhole] at hch
    split_ifs at hch with hzero
    · obtain rfl := List.mem_singleton.mp hch
      rfl
    · exact rate.wholeDigits.2 ch ((List.dropWhile_suffix isZero).subset hch)
  have hvalue : digitsValue whole = digitsValue rate.whole := by
    rw [hwhole]
    split_ifs with hzero
    · rw [← digitsValue_dropZeros rate.whole, hzero]
      rfl
    · exact digitsValue_dropZeros rate.whole
  have hjoined : digitsValue (whole ++ rate.significant) = digitsValue (rate.whole ++ rate.significant) := by
    rw [digitsValue_append, digitsValue_append, hvalue]
  have hall : ∀ ch ∈ whole ++ rate.significant, isDigit ch = true := by
    intro ch hch
    exact (List.mem_append.mp hch).elim (hdigits ch) (significant_digits rate ch)
  unfold refreshRateOf
  simp only [← hwhole]
  change (if rate.significant ≠ [] then
      (stou (whole ++ rate.significant)).map fun numerator =>
        Rational.mk numerator (cast.toUInt (10 ^ rate.significant.length))
    else (stou whole).map fun numerator => Rational.mk numerator 1) = _
  rw [← hjoined]
  by_cases hsignificant : rate.significant = []
  · rw [if_neg (not_not.mpr hsignificant), if_pos hsignificant, hsignificant, List.append_nil, stou_digits hne hdigits]
    split_ifs <;> rfl
  · rw [if_pos hsignificant, if_neg hsignificant, stou_digits (List.append_ne_nil_of_left_ne_nil hne _) hall]
    split_ifs <;> rfl

theorem value_eq (rate : RateText) :
    rate.value = (digitsValue (rate.whole ++ rate.significant) : ℚ) / 10 ^ rate.significant.length := by
  unfold RateText.value
  rw [← fraction_dropZeros]
  exact add_fraction rate.whole rate.significant

theorem parseRefreshRateString_text (cast : UIntCast) (allowDecimalPoint : Bool) (rate : RateText) :
    parseRefreshRateString cast allowDecimalPoint rate.text =
      if allowDecimalPoint = true ∨ rate.decimals = none then (refreshRateOf cast rate.whole rate.decimals).map some
      else none := by
  have hne : rate.number ≠ [] := List.append_ne_nil_of_left_ne_nil rate.wholeDigits.1 _
  unfold parseRefreshRateString
  rw [trimCopy_text]
  dsimp only
  rw [matchRefreshRate_number]
  by_cases hmatch : allowDecimalPoint = true ∨ rate.decimals = none
  · rw [if_pos hmatch, if_pos hmatch]
  · rw [if_neg hmatch, if_neg hmatch]
    exact if_neg hne

/-- A numerator over what a power of ten is cast to is the number only if the cast changed nothing. -/
theorem div_cast_iff (cast : UIntCast) {numerator : ℕ} (exponent : ℕ) (hpos : 0 < numerator) :
    cast.toUInt (10 ^ exponent) ≠ 0 ∧
        (numerator : ℚ) / cast.toUInt (10 ^ exponent) = (numerator : ℚ) / 10 ^ exponent ↔ exponent < 10 := by
  constructor
  · rintro ⟨hne, heq⟩
    by_contra hlong
    have hbig : 10 ^ 10 ≤ 10 ^ exponent := Nat.pow_le_pow_right (by decide) (Nat.le_of_not_lt hlong)
    have hsmall := cast.bounded (10 ^ exponent)
    have hdenominator : ((cast.toUInt (10 ^ exponent) : ℕ) : ℚ) ≠ 0 := Nat.cast_ne_zero.mpr hne
    have hpower : (10 : ℚ) ^ exponent ≠ 0 := pow_ne_zero _ (by norm_num)
    have hnumerator : (numerator : ℚ) ≠ 0 := Nat.cast_ne_zero.mpr (Nat.ne_of_gt hpos)
    rw [div_eq_div_iff hdenominator hpower] at heq
    have hsame := mul_left_cancel₀ hnumerator heq
    have hnat : 10 ^ exponent = cast.toUInt (10 ^ exponent) := by exact_mod_cast hsame
    omega
  · intro hshort
    have hle : 10 ^ exponent ≤ 10 ^ 9 := Nat.pow_le_pow_right (by decide) (Nat.le_of_lt_succ hshort)
    have hexact := cast.exact (10 ^ exponent) (by omega)
    rw [hexact]
    refine ⟨Nat.pos_iff_ne_zero.mp (Nat.pow_pos (by decide)), ?_⟩
    rw [Nat.cast_pow]
    rfl

/-- A refresh rate is rejected or read exactly unless it has ten significant decimals while its digits fit. -/
theorem parseRefreshRateString_exact_iff (cast : UIntCast) (allowDecimalPoint : Bool) (rate : RateText) :
    Exact cast allowDecimalPoint rate ↔ ¬(allowDecimalPoint = true ∧ Overlong rate) := by
  unfold Exact Overlong
  rw [parseRefreshRateString_text, refreshRateOf_eq, value_eq]
  by_cases hmatch : allowDecimalPoint = true ∨ rate.decimals = none
  · rw [if_pos hmatch]
    by_cases hfits : digitsValue (rate.whole ++ rate.significant) ≤ 4294967295
    · rw [if_pos hfits, Option.map_some]
      by_cases hsignificant : rate.significant = []
      · rw [if_pos hsignificant, hsignificant]
        refine iff_of_true (.inr ⟨_, rfl, Nat.one_ne_zero, ?_⟩) fun hover => by simp at hover
        rw [List.length_nil, pow_zero, Nat.cast_one]
      · have hallow : allowDecimalPoint = true := by
          refine hmatch.resolve_right fun hnone => hsignificant ?_
          rw [RateText.significant, hnone]
          rfl
        have hlast : 0 < digitsValue (rate.whole ++ rate.significant) := by
          have hpos : 0 < digitsValue rate.significant := by
            refine digitsValue_pos (fun ch hch => ?_) hsignificant
            cases hdecimals : rate.decimals with
            | none =>
              rw [hdecimals] at hch
              cases hch
            | some digits =>
              rw [hdecimals] at hch
              exact (rate.decimalDigits digits hdecimals).2 ch hch
          rw [digitsValue_append]
          omega
        have hcast := div_cast_iff cast rate.significant.length hlast
        rw [if_neg hsignificant]
        constructor
        · rintro (hnone | ⟨result, hresult, hne, hvalue⟩) ⟨-, hlong, -⟩
          · cases hnone
          · obtain rfl := Option.some.inj (Option.some.inj hresult)
            exact absurd (hcast.mp ⟨hne, hvalue⟩) (Nat.not_lt.mpr hlong)
        · intro hover
          have hshort : rate.significant.length < 10 := by
            by_contra hlong
            exact hover ⟨hallow, Nat.le_of_not_lt hlong, hfits⟩
          exact .inr ⟨_, rfl, hcast.mpr hshort⟩
    · rw [if_neg hfits]
      exact iff_of_true (.inl rfl) fun hover => hfits hover.2.2
  · rw [if_neg hmatch]
    exact iff_of_true (.inl rfl) fun hover => hmatch (.inl hover.1)

/-- The conversion of 64-bit processors: the lower half of the signed 64-bit number, or of its smallest. -/
def truncation : UIntCast where
  toUInt number := if number < 9223372036854775808 then number % 4294967296 else 0
  exact number hsmall := by
    rw [if_pos (by omega), Nat.mod_eq_of_lt hsmall]
  bounded number := by
    split_ifs <;> omega

/-- One ten-billionth. -/
def tenBillionth : RateText where
  before := []
  whole := ['0']
  decimals := some "0000000001".toList
  behind := []
  blankBefore := nofun
  wholeDigits := ⟨List.cons_ne_nil _ _, List.all_eq_true.mp rfl⟩
  decimalDigits := by
    intro digits hdigits
    obtain rfl := Option.some.inj hdigits
    exact ⟨List.cons_ne_nil _ _, List.all_eq_true.mp rfl⟩
  blankBehind := nofun

/-- `0.0000000001` is read as one over 1410065408. -/
theorem parseRefreshRateString_inexact :
    parseRefreshRateString truncation true tenBillionth.text = some (some ⟨1, 1410065408⟩) ∧
      ¬Exact truncation true tenBillionth := by
  have hresult : parseRefreshRateString truncation true tenBillionth.text = some (some ⟨1, 1410065408⟩) := by
    decide
  refine ⟨hresult, ?_⟩
  rintro (hnone | ⟨result, hsome, -, hvalue⟩)
  · rw [hresult] at hnone
    cases hnone
  · rw [hresult] at hsome
    obtain rfl := Option.some.inj (Option.some.inj hsome)
    have hdigits : digitsValue (tenBillionth.whole ++ tenBillionth.significant) = 1 := by decide
    have hlength : tenBillionth.significant.length = 10 := by decide
    rw [value_eq, hdigits, hlength] at hvalue
    norm_num at hvalue

end Sunshine.Display
