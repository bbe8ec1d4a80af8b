import Mathlib.Algebra.Order.Ring.Int
import Sunshine.Config.Parse
import Sunshine.Lib.Bytes
import Sunshine.Lib.Decimals
import Sunshine.Lib.Texts

/-! The hexadecimal codec of `util` and the integers of the configuration.

`decode_hex` reads pairs of digits, so that `0x` literals are read by bytes: an odd number of digits is rejected, and so are
more digits than the type has. `codec_and_literals` says what is read back and which literals have their value. -/
namespace Sunshine.Config
open Bytes HexDigits Texts
set_option autoImplicit false

/-! ## The codec -/

/-- Without `rev` the last byte comes first. -/
def hexVec (bytes : List UInt8) (rev : Bool) : Text :=
  (if rev then bytes else bytes.reverse).flatMap fun byte => [hexChar (byte.toNat / 16), hexChar (byte.toNat % 16)]

/-- The loop of `decode_hex`: each pair goes in front of those before it. -/
def decodePairs : List UInt8 → Text → Option (List UInt8)
  | bytes, [] => some bytes
  | _, [_] => none
  | bytes, first :: second :: hex =>
    match hexDigit first, hexDigit second with
    | some high, some low => decodePairs (UInt8.ofNat (high <<< 4 ||| low) :: bytes) hex
    | _, _ => none

def decodeHex (hex : Text) (rev : Bool) : Option (List UInt8) :=
  if hex.length % 2 ≠ 0 then none
  else (decodePairs [] hex).map fun bytes => if rev then bytes.reverse else bytes

/-- The bytes of a value of `size` bytes. -/
def fromHex (size : ℕ) (hex : Text) (rev : Bool) : Option (List UInt8) :=
  (decodeHex hex false).bind fun decoded =>
    if size < decoded.length then none
    else
      let bytes := decoded ++ List.replicate (size - decoded.length) 0
      some (if rev then bytes.reverse else bytes)

def fromHexVec (hex : Text) (rev : Bool) : List UInt8 := (decodeHex hex rev).getD []

/-! ## Integers -/

/-- `parse_integer` of a signed type with this range. -/
def parseInteger (low high : ℤ) (number : Text) : Option ℤ :=
  if number = [] then none
  else
    match fromChars low high number with
    | some (value, []) => some value
    | _ => none

def fromView (number : Text) : ℤ := (parseInteger (-9223372036854775808) 9223372036854775807 number).getD 0

def intMin : ℤ := -2147483648

def intMax : ℤ := 2147483647

/-- An `int` by its bytes, the lowest first. -/
def intOf (bytes : List UInt8) : ℤ := Int.bmod (leValue bytes) 4294967296

def hexPrefix : Text := ['0', 'x']

def parseConfigInt (value : Text) : Option ℤ :=
  if hexPrefix.isPrefixOf value then (fromHex 4 (value.drop 2) false).map intOf else parseInteger intMin intMax value

/-- What is between the quotes; the last character is not looked at. -/
def unquoted (value : Text) : Text :=
  if 2 ≤ value.length ∧ value.head? = some '"' then (value.drop 1).take (value.length - 2) else value

/-- Both `int_f` that parse: the option is taken out, and read into the input if it can be. -/
def intF (vars : List (Text × Text)) (name : Text) (input : ℤ) : List (Text × Text) × ℤ :=
  match vars.lookup name with
  | none => (vars, input)
  | some value => (vars.filter fun entry => entry.1 ≠ name, (parseConfigInt (unquoted value)).getD input)

/-! ## Bytes and pairs of digits -/

section Pairs

variable {bytes : List UInt8} {hex : Text}

/-- The two digits of a byte. -/
def digitsOf (byte : UInt8) : Text := [hexChar (byte.toNat / 16), hexChar (byte.toNat % 16)]

theorem nibble_lt (byte : UInt8) : byte.toNat / 16 < 16 ∧ byte.toNat % 16 < 16 := by
  have hlt := byte.toNat_lt
  omega

theorem join_nibbles {high low : ℕ} (hlow : low < 16) : high <<< 4 ||| low = high * 16 + low := field_or high low 4 hlow

theorem toNat_join {high low : ℕ} (hhigh : high < 16) (hlow : low < 16) :
    (UInt8.ofNat (high <<< 4 ||| low)).toNat = high * 16 + low := by
  have hsize : high * 16 + low < UInt8.size := show high * 16 + low < 256 by omega
  rw [join_nibbles hlow, UInt8.toNat_ofNat_of_lt' hsize]

theorem decodePairs_digitsOf (bytes acc : List UInt8) :
    decodePairs acc (bytes.flatMap digitsOf) = some (bytes.reverse ++ acc) := by
  induction bytes generalizing acc with
  | nil => rfl
  | cons byte bytes ih =>
    obtain ⟨hhigh, hlow⟩ := nibble_lt byte
    have hbyte : UInt8.ofNat ((byte.toNat / 16) <<< 4 ||| byte.toNat % 16) = byte := by
      rw [join_nibbles hlow, Nat.mul_comm, Nat.div_add_mod]
      exact UInt8.ofNat_toNat
    rw [List.flatMap_cons, digitsOf, List.cons_append, List.cons_append, List.nil_append, decodePairs,
      hexDigit_hexChar _ hhigh, hexDigit_hexChar _ hlow]
    dsimp only
    rw [hbyte, ih, List.reverse_cons, List.append_assoc]
    rfl

/-- Pairs of digits are read as bytes that have these digits in upper case. -/
theorem decodePairs_some (acc : List UInt8) (hex : Text) (heven : hex.length % 2 = 0)
    (hdigits : ∀ ch ∈ hex, isHexDigit ch = true) :
    ∃ bytes : List UInt8, decodePairs acc hex = some (bytes.reverse ++ acc) ∧
      bytes.flatMap digitsOf = hex.map Char.toUpper := by
  induction acc, hex using decodePairs.induct with
  | case1 acc => exact ⟨[], rfl, rfl⟩
  | case2 acc ch => exact absurd heven (by simp)
  | case3 acc first second hex high low hlow hhigh ih =>
    obtain ⟨hhigh', hupper⟩ := hexChar_hexDigit hhigh
    obtain ⟨hlow', hupper'⟩ := hexChar_hexDigit hlow
    have heven' : hex.length % 2 = 0 := by
      rw [List.length_cons, List.length_cons] at heven
      omega
    obtain ⟨bytes, hrun, hback⟩ := ih heven' fun ch hch =>
      hdigits ch (List.mem_cons_of_mem _ (List.mem_cons_of_mem _ hch))
    have hvalue := toNat_join hhigh' hlow'
    refine ⟨UInt8.ofNat (high <<< 4 ||| low) :: bytes, ?_, ?_⟩
    · rw [decodePairs, hhigh, hlow, List.reverse_cons, List.append_assoc]
      exact hrun
    · have hdiv : (high * 16 + low) / 16 = high := by omega
      have hmod : (high * 16 + low) % 16 = low := by omega
      rw [List.flatMap_cons, digitsOf, hvalue, hdiv, hmod, hback, hupper, hupper']
      rfl
  | case4 acc first second hex hnone =>
    have hfirst := hdigits first List.mem_cons_self
    have hsecond := hdigits second (List.mem_cons_of_mem _ List.mem_cons_self)
    obtain ⟨high, hhigh⟩ := Option.isSome_iff_exists.mp hfirst
    obtain ⟨low, hlow⟩ := Option.isSome_iff_exists.mp hsecond
    exact absurd hlow (hnone high low hhigh)

/-- What is read has half as many bytes as there are digits, all characters are digits, and the value is theirs. -/
theorem of_decodePairs {acc : List UInt8} (h : decodePairs acc hex = some bytes) :
    bytes.length * 2 = acc.length * 2 + hex.length ∧ (∀ ch ∈ hex, isHexDigit ch = true) ∧
      leValue bytes = hexValueFrom (leValue acc) hex := by
  induction acc, hex using decodePairs.induct with
  | case1 acc =>
    obtain rfl : acc = bytes := Option.some.inj h
    exact ⟨by simp, fun ch hch => absurd hch List.not_mem_nil, rfl⟩
  | case2 acc ch => exact absurd h (by simp [decodePairs])
  | case3 acc first second hex high low hlow hhigh ih =>
    rw [decodePairs, hhigh, hlow] at h
    obtain ⟨hlength, hdigits, hvalue⟩ := ih h
    have hhigh' := (hexChar_hexDigit hhigh).1
    have hlow' := (hexChar_hexDigit hlow).1
    refine ⟨?_, fun ch hch => ?_, ?_⟩
    · rw [hlength, List.length_cons, List.length_cons, List.length_cons]
      ring
    · cases List.mem_cons.mp hch with
      | inl heq => rw [heq, isHexDigit, hhigh, Option.isSome_some]
      | inr hch =>
        cases List.mem_cons.mp hch with
        | inl heq => rw [heq, isHexDigit, hlow, Option.isSome_some]
        | inr hch => exact hdigits ch hch
    · have hbyte := toNat_join hhigh' hlow'
      have hfirst : high * 16 + low + 256 * leValue acc = (leValue acc * 16 + high) * 16 + low := by ring
      rw [hvalue, leValue, hbyte, hfirst]
      simp only [hexValueFrom, List.foldl_cons, hhigh, hlow, Option.getD_some]
  | case4 acc first second hex hnone =>
    rw [decodePairs] at h
    split at h
    · next high low hhigh hlow => exact absurd hlow (hnone high low hhigh)
    · exact absurd h (by simp)

theorem leValue_append_zeros (bytes : List UInt8) (count : ℕ) :
    leValue (bytes ++ List.replicate count 0) = leValue bytes := by
  induction bytes with
  | nil =>
    induction count with
    | zero => rfl
    | succ count ih => exact congrArg (0 + 256 * ·) ih
  | cons byte bytes ih => rw [List.cons_append, leValue, ih, leValue]

end Pairs

/-! ## The codec reads back what it writes -/

theorem hexVec_eq (bytes : List UInt8) (rev : Bool) :
    hexVec bytes rev = (if rev then bytes else bytes.reverse).flatMap digitsOf := rfl

theorem length_digits (bytes : List UInt8) : (bytes.flatMap digitsOf).length % 2 = 0 := by
  induction bytes with
  | nil => rfl
  | cons byte bytes ih =>
    rw [List.flatMap_cons, List.length_append, digitsOf, List.length_cons, List.length_singleton]
    omega

theorem fromHexVec_hexVec (bytes : List UInt8) (rev : Bool) : fromHexVec (hexVec bytes rev) rev = bytes := by
  unfold fromHexVec decodeHex
  rw [hexVec_eq, if_neg (not_not.mpr (length_digits _)), decodePairs_digitsOf, Option.map_some, Option.getD_some,
    List.append_nil]
  cases rev with
  | true => exact List.reverse_reverse bytes
  | false => exact List.reverse_reverse bytes

theorem hexVec_fromHexVec {hex : Text} (heven : hex.length % 2 = 0) (hdigits : ∀ ch ∈ hex, isHexDigit ch = true)
    (rev : Bool) : hexVec (fromHexVec hex rev) rev = hex.map Char.toUpper := by
  obtain ⟨bytes, hrun, hback⟩ := decodePairs_some [] hex heven hdigits
  unfold fromHexVec decodeHex
  rw [hexVec_eq, if_neg (not_not.mpr heven), hrun, Option.map_some, Option.getD_some, List.append_nil, ← hback]
  cases rev with
  | true => exact congrArg _ (List.reverse_reverse bytes)
  | false => exact congrArg _ (List.reverse_reverse bytes)

/-! ## Decimal literals -/

/-- An optional minus and at least one digit, with the number that they denote. -/
def DecimalLiteral (text : Text) (value : ℤ) : Prop :=
  ∃ digits : Text, digits ≠ [] ∧ (∀ ch ∈ digits, isDigit ch = true) ∧
    (text = digits ∧ value = digitsValue digits ∨ text = '-' :: digits ∧ value = -(digitsValue digits : ℤ))

theorem inRange_some {low high value v : ℤ} {rest rest' : Text} :
    inRange low high value rest = some (v, rest') ↔ v = value ∧ rest' = rest ∧ low ≤ value ∧ value ≤ high := by
  unfold inRange
  split_ifs with h
  · rw [Option.some.injEq, Prod.mk.injEq]
    exact ⟨fun ⟨hv, hrest⟩ => ⟨hv.symm, hrest.symm, h⟩, fun ⟨hv, hrest, _⟩ => ⟨hv.symm, hrest.symm⟩⟩
  · exact iff_of_false (by simp) fun ⟨_, _, hrange⟩ => h hrange

/-- Digits with nothing behind them, in the range. -/
theorem inRange_digits {low high sign v : ℤ} {digits : Text} :
    (if digits.takeWhile isDigit = [] then none
      else inRange low high (sign * digitsValue (digits.takeWhile isDigit)) (digits.dropWhile isDigit)) = some (v, []) ↔
      digits ≠ [] ∧ (∀ ch ∈ digits, isDigit ch = true) ∧ v = sign * digitsValue digits ∧ low ≤ v ∧ v ≤ high := by
  constructor
  · intro h
    split_ifs at h with hnone
    obtain ⟨hv, hrest, hrange⟩ := inRange_some.mp h
    have hdigits : ∀ ch ∈ digits, isDigit ch = true := List.dropWhile_eq_nil_iff.mp hrest.symm
    rw [List.takeWhile_eq_self_iff.mpr hdigits] at hnone hv hrange
    exact ⟨hnone, hdigits, hv, hv ▸ hrange⟩
  · rintro ⟨hne, hdigits, rfl, hrange⟩
    rw [List.takeWhile_eq_self_iff.mpr hdigits, List.dropWhile_eq_nil_iff.mpr hdigits, if_neg hne]
    exact inRange_some.mpr ⟨rfl, rfl, hrange⟩

theorem fromChars_some {low high v : ℤ} {text : Text} :
    fromChars low high text = some (v, []) ↔ DecimalLiteral text v ∧ low ≤ v ∧ v ≤ high := by
  unfold fromChars
  dsimp only
  by_cases hminus : text.head? = some '-'
  · obtain ⟨digits, rfl⟩ : ∃ digits, text = '-' :: digits := ⟨text.tail, (List.cons_head?_tail hminus).symm⟩
    rw [if_pos hminus, if_pos hminus, List.tail_cons, inRange_digits]
    constructor
    · rintro ⟨hne, hdigits, hv, hrange⟩
      exact ⟨⟨digits, hne, hdigits, .inr ⟨rfl, by rw [hv, neg_one_mul]⟩⟩, hrange⟩
    · rintro ⟨⟨digits', hne, hdigits, ⟨rfl, -⟩ | ⟨htext, hv⟩⟩, hrange⟩
      · exact absurd (hdigits '-' List.mem_cons_self) (by decide)
      · obtain ⟨-, rfl⟩ := List.cons.inj htext
        exact ⟨hne, hdigits, by rw [hv, neg_one_mul], hrange⟩
  · rw [if_neg hminus, if_neg hminus, inRange_digits]
    constructor
    · rintro ⟨hne, hdigits, hv, hrange⟩
      exact ⟨⟨text, hne, hdigits, .inl ⟨rfl, by rw [hv, one_mul]⟩⟩, hrange⟩
    · rintro ⟨⟨digits, hne, hdigits, ⟨rfl, hv⟩ | ⟨htext, -⟩⟩, hrange⟩
      · exact ⟨hne, hdigits, by rw [hv, one_mul], hrange⟩
      · exact absurd (by rw [htext, List.head?_cons]) hminus

theorem parseInteger_iff (low high v : ℤ) (text : Text) :
    parseInteger low high text = some v ↔ DecimalLiteral text v ∧ low ≤ v ∧ v ≤ high := by
  rw [← fromChars_some]
  unfold parseInteger
  split_ifs with hempty
  · rw [hempty]
    exact iff_of_false (by simp) (by simp [fromChars])
  · cases h : fromChars low high text with
    | none => simp
    | some result =>
      obtain ⟨value, rest⟩ := result
      cases rest with
      | nil => simp
      | cons ch rest => simp

/-! ## Hexadecimal literals -/

theorem decodeHex_even {hex : Text} (heven : hex.length % 2 = 0) : decodeHex hex false = decodePairs [] hex := by
  unfold decodeHex
  rw [if_neg (not_not.mpr heven)]
  exact Option.map_id'

theorem fromHex_none {digits : Text}
    (h : digits.length % 2 = 1 ∨ 8 < digits.length ∨ ∃ ch ∈ digits, isHexDigit ch = false) :
    fromHex 4 digits false = none := by
  unfold fromHex
  by_cases heven : digits.length % 2 = 0
  · rw [decodeHex_even heven]
    cases hrun : decodePairs [] digits with
    | none => rfl
    | some bytes =>
      obtain ⟨hlength, hdigits, -⟩ := of_decodePairs hrun
      rcases h with h | h | ⟨ch, hch, hnot⟩
      · omega
      · rw [List.length_nil] at hlength
        exact if_pos (show 4 < bytes.length by omega)
      · exact absurd (hdigits ch hch) (by simp [hnot])
  · unfold decodeHex
    rw [if_pos heven]
    rfl

theorem fromHex_some {digits : Text} (heven : digits.length % 2 = 0) (hlength : digits.length ≤ 8)
    (hdigits : ∀ ch ∈ digits, isHexDigit ch = true) :
    ∃ bytes, fromHex 4 digits false = some bytes ∧ leValue bytes = hexValue digits := by
  obtain ⟨bytes, hrun, -⟩ := decodePairs_some [] digits heven hdigits
  obtain ⟨hsize, -, hvalue⟩ := of_decodePairs hrun
  rw [List.length_nil] at hsize
  unfold fromHex
  rw [decodeHex_even heven, hrun, Option.bind_some]
  exact ⟨_, if_neg (show ¬4 < (bytes.reverse ++ []).length by omega), (leValue_append_zeros _ _).trans hvalue⟩

theorem intOf_small {bytes : List UInt8} (h : (leValue bytes : ℤ) ≤ intMax) : intOf bytes = leValue bytes := by
  unfold intMax at h
  exact Int.bmod_eq_of_le (by omega) (by omega)

theorem parseConfigInt_hex (digits : Text) : parseConfigInt (hexPrefix ++ digits) = (fromHex 4 digits false).map intOf := by
  unfold parseConfigInt
  rw [if_pos (List.isPrefixOf_iff_prefix.mpr (List.prefix_append _ _))]
  rfl

theorem parseConfigInt_hex_none {digits : Text}
    (h : digits.length % 2 = 1 ∨ 8 < digits.length ∨ ∃ ch ∈ digits, isHexDigit ch = false) :
    parseConfigInt (hexPrefix ++ digits) = none := by
  rw [parseConfigInt_hex, fromHex_none h, Option.map_none]

theorem parseConfigInt_hex_some {digits : Text} (heven : digits.length % 2 = 0) (hlength : digits.length ≤ 8)
    (hdigits : ∀ ch ∈ digits, isHexDigit ch = true) (hsmall : (hexValue digits : ℤ) ≤ intMax) :
    parseConfigInt (hexPrefix ++ digits) = some (hexValue digits : ℤ) := by
  obtain ⟨bytes, hrun, hvalue⟩ := fromHex_some heven hlength hdigits
  rw [parseConfigInt_hex, hrun, Option.map_some, intOf_small (by rw [hvalue]; exact hsmall), hvalue]

theorem parseConfigInt_decimal {text : Text} (h : ¬hexPrefix <+: text) (v : ℤ) :
    parseConfigInt text = some v ↔ DecimalLiteral text v ∧ intMin ≤ v ∧ v ≤ intMax := by
  unfold parseConfigInt
  rw [if_neg fun hprefix => h (List.isPrefixOf_iff_prefix.mp hprefix)]
  exact parseInteger_iff intMin intMax v text

/-! ## The option -/

/-- An option that holds a decimal number, in quotes or not, sets the input. -/
theorem intF_decimal {vars : List (Text × Text)} {name value : Text} {v : ℤ} (hvalue : vars.lookup name = some value)
    (hplain : ¬hexPrefix <+: unquoted value) (hliteral : DecimalLiteral (unquoted value) v) (hlow : intMin ≤ v)
    (hhigh : v ≤ intMax) (input : ℤ) : intF vars name input = (vars.filter fun entry => entry.1 ≠ name, v) := by
  have hparse := (parseConfigInt_decimal hplain v).mpr ⟨hliteral, hlow, hhigh⟩
  unfold intF
  rw [hvalue]
  dsimp only
  rw [hparse, Option.getD_some]

/-! ## What is read -/

/-- The codec reads back bytes, and digits up to their case; decimal numbers in the range are read and nothing else without
`0x` is; with `0x`, pairs of digits are read as their value where an `int` has it, and what is no row of at most four pairs is
not read. -/
structure Codec : Prop where
  decode_encode : ∀ (bytes : List UInt8) (rev : Bool), fromHexVec (hexVec bytes rev) rev = bytes
  encode_decode : ∀ (hex : Text) (rev : Bool), hex.length % 2 = 0 → (∀ ch ∈ hex, isHexDigit ch = true) →
    hexVec (fromHexVec hex rev) rev = hex.map Char.toUpper
  integer : ∀ (low high v : ℤ) (text : Text),
    parseInteger low high text = some v ↔ DecimalLiteral text v ∧ low ≤ v ∧ v ≤ high
  decimal : ∀ (text : Text) (v : ℤ), ¬hexPrefix <+: text →
    (parseConfigInt text = some v ↔ DecimalLiteral text v ∧ intMin ≤ v ∧ v ≤ intMax)
  hexadecimal : ∀ digits : Text, digits.length % 2 = 0 → digits.length ≤ 8 → (∀ ch ∈ digits, isHexDigit ch = true) →
    (hexValue digits : ℤ) ≤ intMax → parseConfigInt (hexPrefix ++ digits) = some (hexValue digits : ℤ)
  rejected : ∀ digits : Text, (digits.length % 2 = 1 ∨ 8 < digits.length ∨ ∃ ch ∈ digits, isHexDigit ch = false) →
    parseConfigInt (hexPrefix ++ digits) = none

theorem codec_and_literals : Codec where
  decode_encode := fromHexVec_hexVec
  encode_decode _ rev heven hdigits := hexVec_fromHexVec heven hdigits rev
  integer := parseInteger_iff
  decimal _ v h := parseConfigInt_decimal h v
  hexadecimal _ heven hlength hdigits hsmall := parseConfigInt_hex_some heven hlength hdigits hsmall
  rejected _ h := parseConfigInt_hex_none h

/-- A literal of one digit is rejected, although its value fits. -/
theorem odd_literal_rejected : ¬∀ digits : Text, digits ≠ [] → (∀ ch ∈ digits, isHexDigit ch = true) →
    (hexValue digits : ℤ) ≤ intMax → parseConfigInt (hexPrefix ++ digits) = some (hexValue digits : ℤ) := by
  intro hall
  have heq := hall ['F'] (by decide) (List.forall_mem_singleton.mpr (by decide)) (by decide)
  exact absurd heq (by decide)

end Sunshine.Config
