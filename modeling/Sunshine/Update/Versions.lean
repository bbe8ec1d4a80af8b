import Mathlib.Data.Int.ConditionallyCompleteOrder
import Mathlib.Data.List.TakeWhile
import Sunshine.Lib.Padded
import Sunshine.Lib.Texts

/-! `compare_versions`: dotted version tags, compared component by component.

A tag is read as its components, whatever stands in front of them or behind a dash, and the comparison is the
lexicographic order of the components with zeros behind them: `compareVersions_order`. -/
namespace Sunshine.Versions
open Padded Texts
set_option autoImplicit false

abbrev Text := List Char

/-! ## The comparison -/

def normalizeVersion (version : Text) : Text :=
  let v := if version.head? = some 'v' ∨ version.head? = some 'V' then version.tail else version
  v.takeWhile (· ≠ '-')

def isSpace (ch : Char) : Bool := ch = ' ' ∨ '\t' ≤ ch ∧ ch ≤ '\r'

/-- `std::stoi`: blanks, a sign and digits, whatever is behind them; none where it throws. -/
def stoi (item : Text) : Option ℤ :=
  let number := item.dropWhile isSpace
  let unsigned := if number.head? = some '-' ∨ number.head? = some '+' then number.tail else number
  let sign : ℤ := if number.head? = some '-' then -1 else 1
  let digits := unsigned.takeWhile isDigit
  if digits = [] then none
  else (inRange (-2147483648) 2147483647 (sign * digitsValue digits) []).map Prod.fst

/-- The lambda `parse`: no parts at all where one cannot be read. -/
def parse (s : Text) : List ℤ := ((getlines '.' s).mapM stoi).getD []

def compareVersions (lhs rhs : Text) : ℤ :=
  let pa := parse (normalizeVersion lhs)
  let pb := parse (normalizeVersion rhs)
  if pa = [] ∨ pb = [] then 0
  else
    let n := max pa.length pb.length
    compareParts (resize n 0 pa) (resize n 0 pb)

/-- What `status.outdated` becomes. -/
def outdated (projectVersion tag : Text) : Bool := compareVersions projectVersion tag < 0

/-! ## Version tags -/

/-- A numeric component that fits an `int`. -/
structure Component where
  digits : Text
  nonempty : digits ≠ []
  numeric : ∀ ch ∈ digits, isDigit ch = true
  fits : digitsValue digits ≤ 2147483647

/-- A leading `v`, components with dots between them, and what is behind a dash. -/
structure Tag where
  mark : Option Char
  marked : ∀ ch ∈ mark, ch = 'v' ∨ ch = 'V'
  first : Component
  more : List Component
  suffix : Option Text

def dotted : List Component → Text
  | [] => []
  | part :: more => '.' :: (part.digits ++ dotted more)

def Tag.text (tag : Tag) : Text :=
  tag.mark.toList ++ (tag.first.digits ++ dotted tag.more) ++ (tag.suffix.map fun behind => '-' :: behind).getD []

def Tag.components (tag : Tag) : List ℤ := (tag.first :: tag.more).map fun part => digitsValue part.digits

/-- The place of a tag in the order of versions. -/
def Tag.rank (tag : Tag) : Lex (ℕ → ℤ) := padded 0 tag.components

/-! ## Reading a tag -/

variable {tag : Tag} {part : Component} {more : List Component}

theorem digit_ne {ch other : Char} (hdigit : isDigit ch = true) (hother : isDigit other = false) : ch ≠ other := by
  rintro rfl
  rw [hdigit] at hother
  cases hother

theorem Component.head (part : Component) : ∃ ch rest, part.digits = ch :: rest ∧ isDigit ch = true := by
  obtain ⟨ch, rest, hdigits⟩ := List.exists_cons_of_ne_nil part.nonempty
  refine ⟨ch, rest, hdigits, part.numeric ch ?_⟩
  rw [hdigits]
  exact List.mem_cons_self

theorem Component.stoi (part : Component) : stoi part.digits = some (digitsValue part.digits : ℤ) := by
  obtain ⟨ch, rest, hdigits, hdigit⟩ := part.head
  have hspace : isSpace ch = false := by
    unfold isSpace
    rw [decide_eq_false_iff_not]
    rintro (rfl | hcontrol)
    · cases hdigit
    · have hlow : '0' ≤ ch := (of_decide_eq_true hdigit).1
      exact absurd (Char.le_trans hlow hcontrol.2) (by decide)
  have hblank : part.digits.dropWhile isSpace = part.digits := by
    rw [hdigits, List.dropWhile_cons_of_neg (by rw [hspace]; exact Bool.false_ne_true)]
  have hhead : part.digits.head? = some ch := by rw [hdigits]; rfl
  have hminus : ¬part.digits.head? = some '-' := by
    rw [hhead]
    exact fun hsame => digit_ne hdigit rfl (Option.some.inj hsame)
  have hplus : ¬part.digits.head? = some '+' := by
    rw [hhead]
    exact fun hsame => digit_ne hdigit rfl (Option.some.inj hsame)
  have hall : part.digits.takeWhile isDigit = part.digits := by
    rw [List.takeWhile_eq_self_iff]
    exact part.numeric
  have hfits := part.fits
  unfold Versions.stoi
  rw [hblank]
  simp only [if_neg hminus, if_neg (not_or.mpr ⟨hminus, hplus⟩), hall, if_neg part.nonempty, Int.one_mul]
  rw [inRange, if_pos (by omega)]
  rfl

theorem Component.plain {ch : Char} (hch : isDigit ch = false) (part : Component) : ch ∉ part.digits :=
  fun hmem => digit_ne (part.numeric ch hmem) hch rfl

theorem getlines_dotted (part : Component) (more : List Component) :
    getlines '.' (part.digits ++ dotted more) = (part :: more).map Component.digits := by
  induction more generalizing part with
  | nil =>
    rw [dotted, List.append_nil]
    exact getlines_last (part.plain rfl) part.nonempty
  | cons next more ih =>
    rw [dotted, getlines_append (part.plain rfl), ih next]
    rfl

theorem parse_dotted (part : Component) (more : List Component) :
    parse (part.digits ++ dotted more) = (part :: more).map fun part => (digitsValue part.digits : ℤ) := by
  have hall (parts : List Component) :
      (parts.map Component.digits).mapM stoi = some (parts.map fun part => (digitsValue part.digits : ℤ)) := by
    induction parts with
    | nil => rfl
    | cons part parts ih =>
      rw [List.map_cons, List.mapM_cons, part.stoi, ih]
      rfl
  unfold parse
  rw [getlines_dotted, hall]
  rfl

theorem dotted_plain (more : List Component) : ∀ ch ∈ dotted more, ch ≠ '-' := by
  induction more with
  | nil => exact nofun
  | cons part more ih =>
    intro ch hch
    rw [dotted, List.mem_cons, List.mem_append] at hch
    rcases hch with rfl | hdigits | hmore
    · decide
    · exact digit_ne (part.numeric ch hdigits) rfl
    · exact ih ch hmore

theorem normalizeVersion_text (tag : Tag) : normalizeVersion tag.text = tag.first.digits ++ dotted tag.more := by
  obtain ⟨ch, rest, hdigits, hdigit⟩ := tag.first.head
  have hplain : ∀ ch ∈ tag.first.digits ++ dotted tag.more, decide (ch ≠ '-') = true := by
    intro ch hch
    rw [decide_eq_true_iff]
    cases List.mem_append.mp hch with
    | inl hfirst => exact digit_ne (tag.first.numeric ch hfirst) rfl
    | inr hmore => exact dotted_plain tag.more ch hmore
  have hsuffix : ((tag.suffix.map fun behind => '-' :: behind).getD []).takeWhile (· ≠ '-') = [] := by
    cases tag.suffix with
    | none => rfl
    | some behind => rfl
  have hcut : (tag.first.digits ++ dotted tag.more ++
      (tag.suffix.map fun behind => '-' :: behind).getD []).takeWhile (· ≠ '-') =
      tag.first.digits ++ dotted tag.more := by
    rw [List.takeWhile_append_of_pos hplain, hsuffix, List.append_nil]
  unfold normalizeVersion Tag.text
  cases hmark : tag.mark with
  | none =>
    have hhead : ¬((tag.first.digits ++ dotted tag.more ++
        (tag.suffix.map fun behind => '-' :: behind).getD []).head? = some 'v' ∨
        (tag.first.digits ++ dotted tag.more ++
          (tag.suffix.map fun behind => '-' :: behind).getD []).head? = some 'V') := by
      rw [hdigits]
      rintro (hsame | hsame)
      · exact digit_ne hdigit rfl (Option.some.inj hsame)
      · exact digit_ne hdigit rfl (Option.some.inj hsame)
    rw [Option.toList_none, List.nil_append, if_neg hhead]
    exact hcut
  | some mark =>
    have hv : mark = 'v' ∨ mark = 'V' := tag.marked mark hmark
    have hhead (behind : Text) : (mark :: behind).head? = some 'v' ∨ (mark :: behind).head? = some 'V' :=
      hv.imp (congrArg some) (congrArg some)
    rw [Option.toList_some, List.singleton_append, List.cons_append, if_pos (hhead _)]
    exact hcut

/-- The comparison is that of the ranks. -/
theorem compareVersions_signs (a b : Tag) :
    compareVersions a.text b.text = -1 ∧ a.rank < b.rank ∨ compareVersions a.text b.text = 0 ∧ a.rank = b.rank ∨
      compareVersions a.text b.text = 1 ∧ b.rank < a.rank := by
  have hparse (tag : Tag) : parse (normalizeVersion tag.text) = tag.components := by
    rw [normalizeVersion_text, parse_dotted]
    rfl
  have hnonempty (tag : Tag) : tag.components ≠ [] := List.cons_ne_nil _ _
  unfold compareVersions
  rw [hparse, hparse]
  simp only [if_neg (not_or.mpr ⟨hnonempty a, hnonempty b⟩)]
  have hlength : (resize (max a.components.length b.components.length) 0 a.components).length =
      (resize (max a.components.length b.components.length) 0 b.components).length :=
    (resize_length _).trans (resize_length _).symm
  have hsigns := compareParts_signs 0 hlength
  rw [padded_resize (le_max_left _ _), padded_resize (le_max_right _ _)] at hsigns
  exact hsigns

theorem compareVersions_bounds (a b : Tag) :
    -1 ≤ compareVersions a.text b.text ∧ compareVersions a.text b.text ≤ 1 := by
  rcases compareVersions_signs a b with ⟨hsign, -⟩ | ⟨hsign, -⟩ | ⟨hsign, -⟩ <;> omega

theorem compareVersions_neg_iff (a b : Tag) : compareVersions a.text b.text < 0 ↔ a.rank < b.rank := by
  rcases compareVersions_signs a b with ⟨hsign, hrank⟩ | ⟨hsign, hrank⟩ | ⟨hsign, hrank⟩
  · exact iff_of_true (by omega) hrank
  · exact iff_of_false (by omega) (hrank ▸ lt_irrefl _)
  · exact iff_of_false (by omega) hrank.le.not_gt

theorem compareVersions_pos_iff (a b : Tag) : 0 < compareVersions a.text b.text ↔ b.rank < a.rank := by
  rcases compareVersions_signs a b with ⟨hsign, hrank⟩ | ⟨hsign, hrank⟩ | ⟨hsign, hrank⟩
  · exact iff_of_false (by omega) hrank.le.not_gt
  · exact iff_of_false (by omega) (hrank ▸ lt_irrefl _)
  · exact iff_of_true (by omega) hrank

theorem compareVersions_swap (a b : Tag) : compareVersions b.text a.text = -compareVersions a.text b.text := by
  have hless := (compareVersions_neg_iff a b).trans (compareVersions_pos_iff b a).symm
  have hgreater := (compareVersions_pos_iff a b).trans (compareVersions_neg_iff b a).symm
  have hbounds := compareVersions_bounds a b
  have hbounds' := compareVersions_bounds b a
  omega

theorem compareVersions_congr {a b : Tag} (hrank : a.rank = b.rank) (c : Tag) :
    compareVersions a.text c.text = compareVersions b.text c.text := by
  have hless : compareVersions a.text c.text < 0 ↔ compareVersions b.text c.text < 0 := by
    rw [compareVersions_neg_iff, compareVersions_neg_iff, hrank]
  have hgreater : 0 < compareVersions a.text c.text ↔ 0 < compareVersions b.text c.text := by
    rw [compareVersions_pos_iff, compareVersions_pos_iff, hrank]
  have hbounds := compareVersions_bounds a c
  have hbounds' := compareVersions_bounds b c
  omega

theorem compareVersions_zero_iff (a b : Tag) : compareVersions a.text b.text = 0 ↔ a.rank = b.rank := by
  rcases compareVersions_signs a b with ⟨hsign, hrank⟩ | ⟨hsign, hrank⟩ | ⟨hsign, hrank⟩
  · exact iff_of_false (by omega) hrank.ne
  · exact iff_of_true hsign hrank
  · exact iff_of_false (by omega) hrank.ne'

theorem compareVersions_le_iff (a b : Tag) : compareVersions a.text b.text ≤ 0 ↔ ¬b.rank < a.rank := by
  rw [← not_lt, compareVersions_pos_iff]

/-- On version tags the comparison is the order of the components with zeros behind them; neither the `v` nor the
suffix counts, and an installed version is outdated exactly if the latest tag comes behind it. -/
theorem compareVersions_order (a b c : Tag) :
    (compareVersions a.text b.text < 0 ↔ a.rank < b.rank) ∧
      (compareVersions a.text b.text = 0 ↔ a.rank = b.rank) ∧
      (0 < compareVersions a.text b.text ↔ b.rank < a.rank) ∧
      compareVersions a.text a.text = 0 ∧
      compareVersions b.text a.text = -compareVersions a.text b.text ∧
      (compareVersions a.text b.text ≤ 0 → compareVersions b.text c.text ≤ 0 → compareVersions a.text c.text ≤ 0) ∧
      (compareVersions a.text b.text ≤ 0 ∨ compareVersions b.text a.text ≤ 0) ∧
      (a.components = b.components → compareVersions a.text c.text = compareVersions b.text c.text) ∧
      (outdated a.text b.text = true ↔ a.rank < b.rank) := by
  refine ⟨compareVersions_neg_iff a b, compareVersions_zero_iff a b, compareVersions_pos_iff a b,
    (compareVersions_zero_iff a a).mpr rfl, compareVersions_swap a b, ?_, ?_,
    fun hsame => compareVersions_congr (congrArg (padded 0) hsame) c, ?_⟩
  · rw [compareVersions_le_iff, compareVersions_le_iff, compareVersions_le_iff]
    exact fun hab hbc => not_lt.mpr ((not_lt.mp hab).trans (not_lt.mp hbc))
  · rw [compareVersions_le_iff, compareVersions_le_iff]
    exact (le_total a.rank b.rank).imp not_lt.mpr not_lt.mpr
  · rw [outdated, decide_eq_true_iff, compareVersions_neg_iff]

end Sunshine.Versions
