import Sunshine.Lib.KeyEntry
import Sunshine.Lib.Utf8
import Mathlib.Data.Int.Notation
import Mathlib.Data.Nat.Digits.Lemmas

/-! Typing a text on the virtual keyboard (`platf::keyboard::unicode`, `to_hex`). `typed_iff` says for which texts and
held keys an entry of code points by control, shift and U reads the text again. -/
namespace Sunshine.UnicodeTyping
open KeyEntry
set_option autoImplicit false

/-- What is linked: `boost::locale` (from UTF-8 to code points), libevdev (the number of a key from its name, or -1)
and inputtino (the key that is moved for a Moonlight code). -/
structure Libraries where
  toUtf32 : List UInt8 → List ℕ
  eventCodeFromName : List Char → ℤ
  scan : ℕ → ℕ

/-- Linux key codes and Moonlight's; of two lines for one key the first counts. -/
def keyMappings : List (ℤ × ℕ) :=
  [(14, 0x08), (15, 0x09), (28, 0x0D), (42, 0x10), (29, 0x11), (58, 0x14), (1, 0x1B), (57, 0x20), (104, 0x21),
    (109, 0x22), (107, 0x23), (102, 0x24), (105, 0x25), (103, 0x26), (106, 0x27), (108, 0x28), (99, 0x2C),
    (110, 0x2D), (111, 0x2E),
    -- 0 to 9
    (11, 0x30), (2, 0x31), (3, 0x32), (4, 0x33), (5, 0x34), (6, 0x35), (7, 0x36), (8, 0x37), (9, 0x38), (10, 0x39),
    -- A to Z
    (30, 0x41), (48, 0x42), (46, 0x43), (32, 0x44), (18, 0x45), (33, 0x46), (34, 0x47), (35, 0x48), (23, 0x49),
    (36, 0x4A), (37, 0x4B), (38, 0x4C), (50, 0x4D), (49, 0x4E), (24, 0x4F), (25, 0x50), (16, 0x51), (19, 0x52),
    (31, 0x53), (20, 0x54), (22, 0x55), (47, 0x56), (17, 0x57), (45, 0x58), (21, 0x59), (44, 0x5A),
    (125, 0x5B), (126, 0x5C),
    -- the number pad
    (82, 0x60), (79, 0x61), (80, 0x62), (81, 0x63), (75, 0x64), (76, 0x65), (77, 0x66), (71, 0x67), (72, 0x68),
    (73, 0x69), (55, 0x6A), (78, 0x6B), (74, 0x6D), (83, 0x6E), (98, 0x6F),
    -- F1 to F24
    (59, 0x70), (60, 0x71), (61, 0x72), (62, 0x73), (63, 0x74), (64, 0x75), (65, 0x76), (66, 0x77), (67, 0x78),
    (68, 0x79), (87, 0x7A), (88, 0x7B), (183, 0x7C), (184, 0x7D), (185, 0x7E), (186, 0x7F), (187, 0x80), (188, 0x81),
    (189, 0x82), (190, 0x83), (191, 0x84), (192, 0x85), (193, 0x86), (194, 0x87),
    (69, 0x90), (70, 0x91),
    -- the modifiers
    (42, 0xA0), (54, 0xA1), (29, 0xA2), (97, 0xA3), (56, 0xA4), (100, 0xA5),
    (39, 0xBA), (13, 0xBB), (51, 0xBC), (12, 0xBD), (52, 0xBE), (53, 0xBF), (41, 0xC0), (26, 0xDB), (43, 0xDC),
    (27, 0xDD), (40, 0xDE), (86, 0xE2)]

/-- `std::hex` writes a code point without leading zeros; all of them end up in one text. -/
def toHex (str : List ℕ) : List Char := (str.flatMap (Nat.toDigits 16)).map Char.toUpper

/-- The keys of the map are of type `short`. -/
def typeDigit (lib : Libraries) (ch : Char) : List (KeyEvent ℕ) :=
  let keycode := lib.eventCodeFromName ("KEY_".toList ++ [ch])
  match keyMappings.lookup (keycode.bmod 65536) with
  | some wincode => if keycode = -1 then [] else [.press wincode, .release wincode]
  | none => []

/-- Without a virtual keyboard nothing is sent. -/
def unicode (lib : Libraries) (keyboard : Bool) (utf8 : List UInt8) : List (KeyEvent ℕ) :=
  if keyboard then
    let hexUnicode := toHex (lib.toUtf32 utf8)
    [.press 0xA2, .press 0xA0, .press 0x55, .release 0x55] ++ hexUnicode.flatMap (typeDigit lib) ++
      [.release 0xA0, .release 0xA2]
  else []

/-! ## What the libraries do -/

/-- The keys of the hexadecimal digits. -/
def hexKeys : List ℕ := [11, 2, 3, 4, 5, 6, 7, 8, 9, 10, 30, 48, 46, 32, 18, 33]

def hexChars : List Char := ['0', '1', '2', '3', '4', '5', '6', '7', '8', '9', 'A', 'B', 'C', 'D', 'E', 'F']

/-- libevdev knows the digits' keys by name, and inputtino moves the key that the table names for a code. -/
structure Libraries.Documented (lib : Libraries) : Prop where
  names : ∀ digit ∈ hexChars.zip hexKeys, lib.eventCodeFromName ("KEY_".toList ++ [digit.1]) = digit.2
  scans : ∀ mapping ∈ keyMappings, (lib.scan mapping.2 : ℤ) = mapping.1

/-- A text in UTF-8. -/
def utf8 (text : List Char) : List UInt8 := text.flatMap fun c => Utf8.encode c.toNat

/-- How the keys of a Linux keyboard enter a code point: left or right control and shift, U, and the digits. -/
def hexEntry : Layout ℕ where
  control := {29, 97}
  shift := {42, 54}
  start := 22
  digit key := hexKeys.idxOf? key

/-! ## The digits that are typed -/

def hexDigits (code : ℕ) : List ℕ := if code = 0 then [0] else (Nat.digits 16 code).reverse

def hexKey (digit : ℕ) : ℕ := hexKeys.getD digit 0

theorem hexDigits_lt (code : ℕ) : ∀ digit ∈ hexDigits code, digit < 16 := by
  intro digit hdigit
  unfold hexDigits at hdigit
  split_ifs at hdigit
  · rw [List.mem_singleton.mp hdigit]
    decide
  · exact Nat.digits_lt_base (by decide) (List.mem_reverse.mp hdigit)

theorem hexDigits_ne_nil (code : ℕ) : hexDigits code ≠ [] := by
  unfold hexDigits
  split_ifs with hzero
  · exact List.cons_ne_nil 0 []
  · rw [ne_eq, List.reverse_eq_nil_iff]
    exact Nat.digits_ne_nil_iff_ne_zero.mpr hzero

theorem entered_hexDigits (code : ℕ) : entered (hexDigits code) = [code] := by
  rw [entered, if_neg (hexDigits_ne_nil code), List.cons.injEq]
  refine ⟨?_, rfl⟩
  unfold hexDigits
  split_ifs with hzero
  · rw [hzero]
    rfl
  · rw [List.reverse_reverse, Nat.ofDigits_digits]

theorem toDigits_eq (code : ℕ) : Nat.toDigits 16 code = (hexDigits code).map Nat.digitChar := by
  induction code using Nat.strong_induction_on with
  | _ code ih =>
    rw [Nat.toDigits_eq_if (by decide)]
    by_cases hsmall : code < 16
    · rw [if_pos hsmall]
      unfold hexDigits
      split_ifs with hzero
      · rw [hzero]
        rfl
      · rw [Nat.digits_of_lt 16 code hzero hsmall]
        rfl
    · have hquotient : code / 16 ≠ 0 := by omega
      have hdigits : hexDigits code = hexDigits (code / 16) ++ [code % 16] := by
        unfold hexDigits
        rw [if_neg (by omega), if_neg hquotient, Nat.digits_def' (by decide) (by omega), List.reverse_cons]
      rw [if_neg hsmall, ih (code / 16) (by omega), hdigits, List.map_append]
      rfl

/-- A digit is typed by a tap of its key. -/
theorem typeDigit_map {lib : Libraries} (hlib : lib.Documented) {digit : ℕ} (hdigit : digit < 16) :
    (typeDigit lib (Nat.digitChar digit).toUpper).map (KeyEvent.map lib.scan) = tap (hexKey digit) := by
  have hname : ((Nat.digitChar digit).toUpper, hexKey digit) ∈ hexChars.zip hexKeys := by
    revert digit
    decide
  have hlookup : ∃ wincode, keyMappings.lookup ((hexKey digit : ℤ).bmod 65536) = some wincode ∧
      ((hexKey digit : ℤ), wincode) ∈ keyMappings := by
    have hall : ∀ digit < 16, (keyMappings.lookup ((hexKey digit : ℤ).bmod 65536)).all
        (fun wincode => ((hexKey digit : ℤ), wincode) ∈ keyMappings) = true ∧
          (keyMappings.lookup ((hexKey digit : ℤ).bmod 65536)).isSome = true := by decide +kernel
    obtain ⟨hmem, hsome⟩ := hall digit hdigit
    obtain ⟨wincode, hwincode⟩ := Option.isSome_iff_exists.mp hsome
    rw [hwincode] at hmem
    exact ⟨wincode, hwincode, of_decide_eq_true hmem⟩
  obtain ⟨wincode, hwincode, hmem⟩ := hlookup
  have hscan : lib.scan wincode = hexKey digit := Int.ofNat_inj.mp (hlib.scans _ hmem)
  unfold typeDigit
  rw [hlib.names _ hname]
  simp only [hwincode]
  rw [if_neg (by omega), List.map_cons, List.map_cons, List.map_nil, KeyEvent.map, KeyEvent.map, hscan]
  rfl

/-- The keys of all digits of a text. -/
def typedKeys (text : List Char) : List ℕ := (text.flatMap fun c => hexDigits c.toNat).map hexKey

theorem typeDigits_map {lib : Libraries} (hlib : lib.Documented) (text : List Char) :
    ((toHex (text.map Char.toNat)).flatMap (typeDigit lib)).map (KeyEvent.map lib.scan) =
      (typedKeys text).flatMap tap := by
  have hhex : toHex (text.map Char.toNat) =
      (text.flatMap fun c => hexDigits c.toNat).map fun digit => (Nat.digitChar digit).toUpper := by
    unfold toHex
    induction text with
    | nil => rfl
    | cons c text ih =>
      rw [List.map_cons, List.flatMap_cons, List.map_append, ih, List.flatMap_cons, List.map_append, toDigits_eq,
        List.map_map]
      rfl
  have hlt : ∀ digit ∈ text.flatMap fun c => hexDigits c.toNat, digit < 16 := by
    intro digit hdigit
    obtain ⟨c, -, hc⟩ := List.mem_flatMap.mp hdigit
    exact hexDigits_lt _ digit hc
  rw [hhex, typedKeys]
  generalize text.flatMap (fun c => hexDigits c.toNat) = digits at hlt
  induction digits with
  | nil => rfl
  | cons digit digits ih =>
    obtain ⟨hdigit, hdigits⟩ := List.forall_mem_cons.mp hlt
    rw [List.map_cons, List.flatMap_cons, List.map_append, typeDigit_map hlib hdigit, ih hdigits]
    rfl

/-- What is sent, as moves of the keyboard's keys. -/
theorem unicode_map {lib : Libraries} (hlib : lib.Documented) {text : List Char}
    (htext : lib.toUtf32 (utf8 text) = text.map Char.toNat) :
    (unicode lib true (utf8 text)).map (KeyEvent.map lib.scan) =
      [.press 29, .press 42, .press 22, .release 22] ++ (typedKeys text).flatMap tap ++ [.release 42, .release 29] := by
  have hcontrol : lib.scan 0xA2 = 29 := Int.ofNat_inj.mp (hlib.scans (29, 0xA2) (by decide))
  have hshift : lib.scan 0xA0 = 42 := Int.ofNat_inj.mp (hlib.scans (42, 0xA0) (by decide))
  have hstart : lib.scan 0x55 = 22 := Int.ofNat_inj.mp (hlib.scans (22, 0x55) (by decide))
  rw [unicode, if_pos rfl, htext]
  simp only [List.map_append, typeDigits_map hlib]
  simp only [List.map_cons, List.map_nil, KeyEvent.map, hcontrol, hshift, hstart]

/-! ## What is read of it -/

theorem hexKey_digit {digit : ℕ} (hdigit : digit < 16) : (hexEntry.digit (hexKey digit)).toList = [digit] := by
  revert digit
  decide

theorem hexKey_modifier {digit : ℕ} (hdigit : digit < 16) :
    hexKey digit ∉ hexEntry.control ∪ hexEntry.shift := by
  revert digit
  decide

/-- The keys the call moves. -/
def usedKeys (text : List Char) : List ℕ := 29 :: 42 :: 22 :: typedKeys text

theorem typedKeys_digits (text : List Char) :
    (typedKeys text).flatMap (fun key => (hexEntry.digit key).toList) = text.flatMap fun c => hexDigits c.toNat := by
  have hlt : ∀ digit ∈ text.flatMap fun c => hexDigits c.toNat, digit < 16 := by
    intro digit hdigit
    obtain ⟨c, -, hc⟩ := List.mem_flatMap.mp hdigit
    exact hexDigits_lt _ digit hc
  unfold typedKeys
  generalize text.flatMap (fun c => hexDigits c.toNat) = digits at hlt
  induction digits with
  | nil => rfl
  | cons digit digits ih =>
    obtain ⟨hdigit, hdigits⟩ := List.forall_mem_cons.mp hlt
    rw [List.map_cons, List.flatMap_cons, ih hdigits, hexKey_digit hdigit, List.singleton_append]

theorem typedKeys_modifier (text : List Char) :
    ∀ key ∈ typedKeys text, key ∉ hexEntry.control ∪ hexEntry.shift := by
  intro key hkey
  obtain ⟨digit, hdigit, rfl⟩ := List.mem_map.mp hkey
  obtain ⟨c, -, hc⟩ := List.mem_flatMap.mp hdigit
  exact hexKey_modifier (hexDigits_lt _ digit hc)

theorem spelled_of_free {text : List Char} {held : Finset ℕ} (hfree : ∀ key ∈ usedKeys text, key ∉ held) :
    ((⟨held, none, []⟩ : Reader ℕ).read hexEntry
        ([.press 29, .press 42, .press 22, .release 22] ++ (typedKeys text).flatMap tap ++
          [.release 42, .release 29])).spelled = entered (text.flatMap fun c => hexDigits c.toNat) := by
  have hread := @Reader.read_entry ℕ _ hexEntry held 29 42 (typedKeys text) (by decide) (by decide) (by decide) (by decide)
    (typedKeys_modifier text) hfree
  rw [typedKeys_digits] at hread
  exact congrArg Reader.spelled hread

theorem entered_text_iff (text : List Char) :
    entered (text.flatMap fun c => hexDigits c.toNat) = text.map Char.toNat ↔ text.length ≤ 1 := by
  have hshort : ∀ digits, (entered digits).length ≤ 1 := by
    intro digits
    unfold entered
    split_ifs
    · exact Nat.zero_le 1
    · exact Nat.le_refl 1
  constructor
  · intro h
    have hlength := hshort (text.flatMap fun c => hexDigits c.toNat)
    rwa [h, List.length_map] at hlength
  · intro hlength
    cases text with
    | nil => rfl
    | cons c text =>
      obtain rfl : text = [] := List.eq_nil_of_length_eq_zero (by rw [List.length_cons] at hlength; omega)
      rw [List.flatMap_cons, List.flatMap_nil, List.append_nil, entered_hexDigits]
      rfl

/-- The events spell the text, and the keys that were held are held again. -/
def Typed (lib : Libraries) (keyboard : Bool) (text : List Char) (held : Finset ℕ) : Prop :=
  let after := (⟨held, none, []⟩ : Reader ℕ).read hexEntry
    ((unicode lib keyboard (utf8 text)).map (KeyEvent.map lib.scan))
  after.spelled = text.map Char.toNat ∧ after.held = held

/-- At most one code point can be typed, and only while none of the keys for it is held. -/
theorem typed_iff {lib : Libraries} (hlib : lib.Documented) (keyboard : Bool) (text : List Char)
    (htext : lib.toUtf32 (utf8 text) = text.map Char.toNat) (held : Finset ℕ) :
    Typed lib keyboard text held ↔
      if keyboard then text.length ≤ 1 ∧ ∀ key ∈ usedKeys text, key ∉ held else text = [] := by
  unfold Typed
  cases keyboard with
  | false =>
    rw [if_neg Bool.false_ne_true]
    constructor
    · rintro ⟨hspelled, -⟩
      exact List.map_eq_nil_iff.mp hspelled.symm
    · rintro rfl
      exact ⟨rfl, rfl⟩
  | true =>
    have hheld : ∀ layout : Layout ℕ, ((⟨held, none, []⟩ : Reader ℕ).read layout
        ([.press 29, .press 42, .press 22, .release 22] ++ (typedKeys text).flatMap tap ++
          [.release 42, .release 29])).held = held \ (usedKeys text).toFinset := by
      intro layout
      rw [Reader.read_held]
      exact heldAfter_entry held 29 42 22 (typedKeys text)
    have hfree : held \ (usedKeys text).toFinset = held ↔ ∀ key ∈ usedKeys text, key ∉ held := by
      rw [Finset.sdiff_eq_self_iff_disjoint, Finset.disjoint_right]
      simp only [List.mem_toFinset]
    rw [if_pos rfl, unicode_map hlib htext]
    dsimp only
    rw [hheld, hfree]
    constructor
    · rintro ⟨hspelled, hfree⟩
      rw [spelled_of_free hfree] at hspelled
      exact ⟨(entered_text_iff text).mp hspelled, hfree⟩
    · rintro ⟨hlength, hfree⟩
      exact ⟨(spelled_of_free hfree).trans ((entered_text_iff text).mpr hlength), hfree⟩

/-- Libraries that do what is documented, for texts of ASCII. -/
def asciiLibraries : Libraries where
  toUtf32 bytes := bytes.map UInt8.toNat
  eventCodeFromName name :=
    (((hexChars.zip hexKeys).find? fun digit => name = "KEY_".toList ++ [digit.1]).map fun digit => (digit.2 : ℤ)).getD (-1)
  scan wincode := ((keyMappings.find? fun mapping => mapping.2 = wincode).map fun mapping => mapping.1.toNat).getD 0

theorem asciiLibraries_documented : asciiLibraries.Documented where
  names := by decide +kernel
  scans := by decide +kernel

theorem typed_letter : Typed asciiLibraries true ['a'] {30} :=
  (typed_iff asciiLibraries_documented true ['a'] (by decide) {30}).mpr ⟨by decide, by decide⟩

/-- Two letters are typed as one code point. -/
theorem letters_run_together : ¬∀ lib : Libraries, lib.Documented → ∀ text,
    lib.toUtf32 (utf8 text) = text.map Char.toNat → ∀ held, Typed lib true text held := by
  intro h
  exact absurd (h asciiLibraries asciiLibraries_documented ['a', 'b'] (by decide) ∅).1 (by decide)

end Sunshine.UnicodeTyping
