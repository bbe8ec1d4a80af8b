import Mathlib.Data.Nat.Digits.Lemmas
import Mathlib.Data.List.TakeWhile
import Sunshine.Lib.Json

/-! Integers in decimal, as bytes. -/
namespace Sunshine.Json
set_option autoImplicit false

def digitByte (digit : ℕ) : UInt8 := UInt8.ofNat (48 + digit)

def natural (n : ℕ) : Bytes := if n = 0 then [48] else (Nat.digits 10 n).reverse.map digitByte

def integer (z : ℤ) : Bytes := if z < 0 then 45 :: natural z.natAbs else natural z.natAbs

/-- The value of a text of digits. -/
def naturalValue (text : Bytes) : ℕ := text.foldl (fun value b => value * 10 + (b.toNat - 48)) 0

def integerValue (text : Bytes) : ℤ :=
  if text.head? = some 45 then -(naturalValue text.tail : ℤ) else naturalValue text

variable {digit n : ℕ} {b : UInt8}

theorem toNat_digitByte (hdigit : digit < 10) : (digitByte digit).toNat = 48 + digit := by
  rw [digitByte, UInt8.toNat_ofNat']
  omega

theorem isDigit_digitByte (hdigit : digit < 10) : isDigit (digitByte digit) = true := by
  simp only [isDigit, toNat_digitByte hdigit, decide_eq_true_eq]
  omega

theorem isDigit_natural (hmem : b ∈ natural n) : isDigit b = true := by
  unfold natural at hmem
  split at hmem
  · rw [List.mem_singleton.mp hmem]
    rfl
  · obtain ⟨digit, hdigit, rfl⟩ := List.mem_map.mp hmem
    exact isDigit_digitByte (Nat.digits_lt_base (by omega) (List.mem_reverse.mp hdigit))

theorem natural_ne_nil (n : ℕ) : natural n ≠ [] := by
  unfold natural
  split
  · simp
  · next hpos =>
    intro hnil
    exact Nat.digits_ne_nil_iff_ne_zero.mpr hpos (List.reverse_eq_nil_iff.mp (List.map_eq_nil_iff.mp hnil))

/-- No digit stands in front of a zero that is not needed. -/
theorem natural_head (hhead : (natural n).head? = some 48) : natural n = [48] := by
  by_cases hzero : n = 0
  · rw [natural, if_pos hzero]
  · rw [natural, if_neg hzero, List.head?_map, List.head?_reverse, List.getLast?_eq_some_getLast
      (Nat.digits_ne_nil_iff_ne_zero.mpr hzero)] at hhead
    have hlast := Nat.getLast_digit_ne_zero 10 hzero
    have hsmall : (Nat.digits 10 n).getLast (Nat.digits_ne_nil_iff_ne_zero.mpr hzero) < 10 :=
      Nat.digits_lt_base (by omega) (List.getLast_mem _)
    have hbyte := congrArg UInt8.toNat (Option.some.inj hhead)
    rw [toNat_digitByte hsmall] at hbyte
    have hcode : (48 : UInt8).toNat = 48 := rfl
    omega

theorem naturalValue_digits (digits : List ℕ) (hdigits : ∀ digit ∈ digits, digit < 10) :
    naturalValue (digits.reverse.map digitByte) = Nat.ofDigits 10 digits := by
  induction digits with
  | nil => rfl
  | cons digit digits ih =>
    have hrest := ih fun other hother => hdigits other (List.mem_cons_of_mem _ hother)
    unfold naturalValue at hrest ⊢
    rw [List.reverse_cons, List.map_append, List.foldl_append, hrest, List.map_singleton, List.foldl_cons, List.foldl_nil,
      toNat_digitByte (hdigits digit List.mem_cons_self), Nat.ofDigits_cons]
    omega

theorem naturalValue_natural (n : ℕ) : naturalValue (natural n) = n := by
  unfold natural
  split
  · next hzero => rw [hzero]; rfl
  · rw [naturalValue_digits _ fun digit hdigit => Nat.digits_lt_base (by omega) hdigit, Nat.ofDigits_digits]

theorem natural_unsigned (n : ℕ) : (natural n).head? ≠ some 45 := by
  intro hhead
  exact absurd (isDigit_natural (List.mem_of_head? hhead)) (by decide)

theorem integerValue_integer (z : ℤ) : integerValue (integer z) = z := by
  unfold integer
  split
  · rw [integerValue, List.head?_cons, if_pos rfl, List.tail_cons, naturalValue_natural]
    omega
  · rw [integerValue, if_neg (natural_unsigned _), naturalValue_natural]
    omega

theorem numeral_unsigned {text : Bytes} (hdigits : ∀ b ∈ text, isDigit b = true) (hsome : text ≠ [])
    (hhead : text.head? = some 48 → text = [48]) (sign : Bytes) (hsign : sign = [] ∨ sign = [45]) :
    numeral (sign ++ text) = true := by
  have hbare : text.head? ≠ some 45 := fun h => absurd (hdigits _ (List.mem_of_head? h)) (by decide)
  have hunsigned : (if (sign ++ text).head? = some 45 then (sign ++ text).tail else sign ++ text) = text := by
    obtain rfl | rfl := hsign
    · rw [List.nil_append, if_neg hbare]
    · rfl
  have hwhole : text.takeWhile isDigit = text := List.takeWhile_eq_self_iff.mpr hdigits
  have hrest : text.dropWhile isDigit = [] := List.dropWhile_eq_nil_iff.mpr hdigits
  simp only [numeral, hunsigned, hwhole, hrest, fraction]
  exact decide_eq_true ⟨by simpa using hsome, by simpa using hhead, trivial⟩

theorem numeral_integer (z : ℤ) : numeral (integer z) = true := by
  have hnatural : ∀ sign : Bytes, (sign = [] ∨ sign = [45]) → numeral (sign ++ natural z.natAbs) = true :=
    numeral_unsigned (fun _ => isDigit_natural) (natural_ne_nil _) natural_head
  unfold integer
  split
  · exact hnatural [45] (Or.inr rfl)
  · exact hnatural [] (Or.inl rfl)

theorem integer_ne_nil (z : ℤ) : integer z ≠ [] := by
  unfold integer
  split
  · simp
  · exact natural_ne_nil _

/-- An integer is made of digits and the sign. -/
theorem mem_integer {z : ℤ} (hmem : b ∈ integer z) : b = 45 ∨ isDigit b = true := by
  unfold integer at hmem
  split at hmem
  · obtain rfl | hrest := List.mem_cons.mp hmem
    · exact Or.inl rfl
    · exact Or.inr (isDigit_natural hrest)
  · exact Or.inr (isDigit_natural hmem)

/-! ## Bytes of a number -/

theorem numeric_digit (hdigit : isDigit b = true) : numeric b = true := by
  simp [numeric, hdigit]

theorem numeric_digits {text : Bytes} (hdigits : digits text = true) : ∀ b ∈ text, numeric b = true := by
  intro b hmem
  have hall := (of_decide_eq_true hdigits).2
  exact numeric_digit (List.all_eq_true.mp hall b hmem)

theorem numeric_exponent {text : Bytes} (hexponent : exponent text = true) : ∀ b ∈ text, numeric b = true := by
  cases text with
  | nil => exact List.forall_mem_nil _
  | cons letter text =>
    obtain ⟨hletter, hdigits⟩ := of_decide_eq_true hexponent
    refine List.forall_mem_cons.mpr ⟨?_, ?_⟩
    · obtain rfl | rfl := hletter <;> rfl
    · cases text with
      | nil => exact List.forall_mem_nil _
      | cons sign text =>
        by_cases hsign : sign = 43 ∨ sign = 45
        · rw [if_pos (by simpa using hsign)] at hdigits
          refine List.forall_mem_cons.mpr ⟨?_, numeric_digits hdigits⟩
          obtain rfl | rfl := hsign <;> rfl
        · rw [if_neg (by simpa using hsign)] at hdigits
          exact numeric_digits hdigits

theorem numeric_takeWhile (text : Bytes) : ∀ b ∈ text.takeWhile isDigit, numeric b = true :=
  fun _ hmem => numeric_digit (List.mem_takeWhile_imp hmem)

theorem numeric_split {text : Bytes} (hrest : ∀ b ∈ text.dropWhile isDigit, numeric b = true) : ∀ b ∈ text, numeric b = true := by
  intro b hmem
  rw [← List.takeWhile_append_dropWhile (p := isDigit) (l := text)] at hmem
  obtain hwhole | hback := List.mem_append.mp hmem
  · exact numeric_takeWhile text b hwhole
  · exact hrest b hback

theorem numeric_fraction {text : Bytes} (hfraction : fraction text = true) : ∀ b ∈ text, numeric b = true := by
  cases text with
  | nil => exact List.forall_mem_nil _
  | cons point text =>
    rw [fraction] at hfraction
    split at hfraction
    · next hpoint =>
      refine List.forall_mem_cons.mpr ⟨by rw [hpoint]; rfl, numeric_split ?_⟩
      exact numeric_exponent (of_decide_eq_true hfraction).2
    · exact numeric_exponent hfraction

theorem numeric_numeral {text : Bytes} (hnumeral : numeral text = true) : ∀ b ∈ text, numeric b = true := by
  obtain ⟨-, -, hfraction⟩ := of_decide_eq_true hnumeral
  cases text with
  | nil => exact List.forall_mem_nil _
  | cons sign text =>
    by_cases hsign : sign = 45
    · rw [if_pos (by simpa using hsign)] at hfraction
      exact List.forall_mem_cons.mpr ⟨by rw [hsign]; rfl, numeric_split (numeric_fraction hfraction)⟩
    · rw [if_neg (by simpa using hsign)] at hfraction
      exact numeric_split (numeric_fraction hfraction)

theorem numeral_ne_nil {text : Bytes} (hnumeral : numeral text = true) : text ≠ [] := by
  rintro rfl
  exact absurd hnumeral (by decide)

end Sunshine.Json
