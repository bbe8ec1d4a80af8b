import Mathlib.Data.List.Basic
import Mathlib.Data.List.Infix

/-! Shell patterns: alternatives between bars, each with stars, question marks and brackets.

How a bracket is read is a parameter. `suffix_pattern_iff` says which texts can stand behind a star so that the pattern
matches just the names that end with the text. -/
namespace Sunshine.Globs
set_option autoImplicit false

/-- Any number of characters, or one that is accepted. -/
inductive Token where
  | star
  | one (accepts : Char → Bool)

def globMatch : List Token → List Char → Bool
  | [], name => name.isEmpty
  | .star :: tokens, name => name.tails.any fun rest => globMatch tokens rest
  | .one _ :: _, [] => false
  | .one accepts :: tokens, c :: name => accepts c && globMatch tokens name

/-- What follows an opening bracket: the characters meant, with what is behind the closing bracket; none where it is not
the start of a bracket. -/
structure Brackets where
  read : List Char → Option ((Char → Bool) × List Char)
  length_rest : ∀ text accepts rest, read text = some (accepts, rest) → rest.length < text.length

/-- A character that is neither a star nor opens a bracket. -/
def single (c : Char) : Token := .one fun c' => c = '?' || c' = c

section Reading
variable (brackets : Brackets)

def tokens : ℕ → List Char → List Token
  | 0, _ => []
  | _ + 1, [] => []
  | fuel + 1, c :: text =>
    if c = '*' then .star :: tokens fuel text
    else if c = '[' then
      match brackets.read text with
      | some (accepts, rest) => .one accepts :: tokens fuel rest
      | none => single c :: tokens fuel text
    else single c :: tokens fuel text

def alternatives : List Char → List (List Char)
  | [] => [[]]
  | c :: text => if c = '|' then [] :: alternatives text else (alternatives text).modifyHead (List.cons c)

def valueMatch (value name : List Char) : Bool :=
  (alternatives value).any fun text => globMatch (tokens brackets text.length text) name

/-- No star, and no opening bracket that is the start of one. -/
def Flat (text : List Char) : Prop := '*' ∉ text ∧ ∀ rest, '[' :: rest <:+ text → brackets.read rest = none

structure Literal (text : List Char) : Prop where
  flat : Flat brackets text
  bar : '|' ∉ text
  question : '?' ∉ text

end Reading

/-! ## Matches -/

section Matches
variable {text name : List Char} {ts : List Token}

theorem globMatch_star_iff : globMatch (.star :: ts) name = true ↔ ∃ rest, rest <:+ name ∧ globMatch ts rest = true := by
  rw [globMatch, List.any_eq_true]
  exact exists_congr fun rest => and_congr_left fun _ => List.mem_tails rest name

theorem globMatch_one_iff {accepts : Char → Bool} :
    globMatch (.one accepts :: ts) name = true ↔
      ∃ c rest, name = c :: rest ∧ accepts c = true ∧ globMatch ts rest = true := by
  cases name with
  | nil => exact iff_of_false Bool.false_ne_true fun ⟨c, rest, h, _⟩ => List.cons_ne_nil c rest h.symm
  | cons c rest =>
    rw [globMatch, Bool.and_eq_true]
    constructor
    · exact fun h => ⟨c, rest, rfl, h⟩
    · rintro ⟨c', rest', h, haccepts⟩
      obtain ⟨rfl, rfl⟩ := List.cons.inj h
      exact haccepts

/-- How many characters a match has at least. -/
def width : List Token → ℕ
  | [] => 0
  | .star :: ts => width ts
  | .one _ :: ts => width ts + 1

/-- What has a match has one in which no star stands for anything. -/
theorem exists_shortest (h : globMatch ts name = true) :
    ∃ name', globMatch ts name' = true ∧ name'.length = width ts := by
  induction ts generalizing name with
  | nil => exact ⟨[], rfl, rfl⟩
  | cons t ts ih =>
    cases t with
    | star =>
      obtain ⟨rest, -, hrest⟩ := globMatch_star_iff.mp h
      obtain ⟨name', hname', hlength⟩ := ih hrest
      exact ⟨name', globMatch_star_iff.mpr ⟨name', List.suffix_refl _, hname'⟩, hlength⟩
    | one accepts =>
      obtain ⟨c, rest, -, haccepts, hrest⟩ := globMatch_one_iff.mp h
      obtain ⟨name', hname', hlength⟩ := ih hrest
      exact ⟨c :: name', globMatch_one_iff.mpr ⟨c, name', rfl, haccepts, hname'⟩, congrArg (· + 1) hlength⟩

theorem globMatch_singles (hquestion : '?' ∉ text) : globMatch (text.map single) name = true ↔ name = text := by
  induction text generalizing name with
  | nil => exact List.isEmpty_iff
  | cons c text ih =>
    obtain ⟨hc, htext⟩ := not_or.mp (mt List.mem_cons.mpr hquestion)
    have hc' : decide (c = '?') = false := decide_eq_false fun h => hc h.symm
    rw [List.map_cons, single, globMatch_one_iff]
    constructor
    · rintro ⟨c', rest, rfl, haccepts, hrest⟩
      rw [hc', Bool.false_or, decide_eq_true_iff] at haccepts
      rw [haccepts, (ih htext).mp hrest]
    · rintro rfl
      exact ⟨c, text, rfl, by simp, (ih htext).mpr rfl⟩

/-- A question mark also stands for another character. -/
theorem globMatch_replaced (text : List Char) :
    globMatch (text.map single) (text.map fun c => if c = '?' then 'x' else c) = true := by
  induction text with
  | nil => rfl
  | cons c text ih =>
    refine globMatch_one_iff.mpr ⟨_, _, rfl, ?_, ih⟩
    dsimp only
    split_ifs with hc
    · simp [hc]
    · simp

end Matches

/-! ## Tokens -/

section Tokens
variable {brackets : Brackets} {text : List Char} {fuel : ℕ}

theorem flat_cons_iff {c : Char} : Flat brackets (c :: text) ↔
    c ≠ '*' ∧ (c = '[' → brackets.read text = none) ∧ Flat brackets text := by
  unfold Flat
  constructor
  · rintro ⟨hstar, hbracket⟩
    obtain ⟨hc, htext⟩ := not_or.mp (mt List.mem_cons.mpr hstar)
    exact ⟨fun h => hc h.symm, fun h => hbracket text (h ▸ List.suffix_refl _), htext,
      fun rest hrest => hbracket rest (hrest.trans (List.suffix_cons c text))⟩
  · rintro ⟨hc, hopen, htext, hbracket⟩
    refine ⟨fun hmem => (List.mem_cons.mp hmem).elim (fun h => hc h.symm) htext, fun rest hrest => ?_⟩
    cases List.suffix_cons_iff.mp hrest with
    | inl heq =>
      obtain ⟨rfl, rfl⟩ := List.cons.inj heq
      exact hopen rfl
    | inr hrest => exact hbracket rest hrest

theorem tokens_flat (h : Flat brackets text) (hfuel : text.length ≤ fuel) :
    tokens brackets fuel text = text.map single := by
  induction text generalizing fuel with
  | nil => cases fuel <;> rfl
  | cons c text ih =>
    obtain ⟨hstar, hopen, htext⟩ := flat_cons_iff.mp h
    obtain ⟨fuel, rfl⟩ : ∃ n, fuel = n + 1 := ⟨fuel - 1, by rw [List.length_cons] at hfuel; omega⟩
    have hrest := ih htext (Nat.le_of_succ_le_succ hfuel)
    rw [tokens, if_neg hstar]
    split_ifs with hc
    · rw [hopen hc]
      exact congrArg (single c :: ·) hrest
    · exact congrArg (single c :: ·) hrest

/-- A star or a bracket takes more of the text than of a name. -/
theorem width_tokens (brackets : Brackets) (fuel : ℕ) (text : List Char) (hfuel : text.length ≤ fuel) :
    width (tokens brackets fuel text) ≤ text.length ∧
      (¬Flat brackets text → width (tokens brackets fuel text) < text.length) := by
  induction fuel generalizing text with
  | zero =>
    obtain rfl := List.length_eq_zero_iff.mp (Nat.le_zero.mp hfuel)
    exact ⟨le_rfl, fun h => absurd ⟨List.not_mem_nil, fun rest hrest => by simp at hrest⟩ h⟩
  | succ fuel ih =>
    cases text with
    | nil => exact ⟨le_rfl, fun h => absurd ⟨List.not_mem_nil, fun rest hrest => by simp at hrest⟩ h⟩
    | cons c text =>
      have hfuel' : text.length ≤ fuel := Nat.le_of_succ_le_succ hfuel
      obtain ⟨hle, hlt⟩ := ih text hfuel'
      have hsingle : ∀ c, width (single c :: tokens brackets fuel text) = width (tokens brackets fuel text) + 1 :=
        fun _ => rfl
      rw [tokens, List.length_cons]
      split_ifs with hstar hopen
      · have hshort : width (.star :: tokens brackets fuel text) < text.length + 1 := Nat.lt_succ_of_le hle
        exact ⟨hshort.le, fun _ => hshort⟩
      · cases hread : brackets.read text with
        | some found =>
          obtain ⟨accepts, rest⟩ := found
          have hrest := brackets.length_rest text accepts rest hread
          have hwidth := (ih rest (by omega)).1
          have hshort : width (.one accepts :: tokens brackets fuel rest) < text.length + 1 := by
            rw [width]
            omega
          exact ⟨hshort.le, fun _ => hshort⟩
        | none =>
          dsimp only
          rw [hsingle]
          refine ⟨by omega, fun hflat => Nat.succ_lt_succ (hlt fun htext => hflat ?_)⟩
          exact flat_cons_iff.mpr ⟨hstar, fun _ => hread, htext⟩
      · rw [hsingle]
        refine ⟨by omega, fun hflat => Nat.succ_lt_succ (hlt fun htext => hflat ?_)⟩
        exact flat_cons_iff.mpr ⟨hstar, fun h => absurd h hopen, htext⟩

theorem alternatives_eq (h : '|' ∉ text) : alternatives text = [text] := by
  induction text with
  | nil => rfl
  | cons c text ih =>
    obtain ⟨hc, htext⟩ := not_or.mp (mt List.mem_cons.mpr h)
    rw [alternatives, if_neg fun h => hc h.symm, ih htext]
    rfl

theorem length_alternatives {part : List Char} (hpart : part ∈ alternatives text) :
    part.length ≤ text.length ∧ ('|' ∈ text → part.length < text.length) := by
  induction text generalizing part with
  | nil =>
    rw [alternatives, List.mem_singleton] at hpart
    subst hpart
    exact ⟨le_rfl, fun h => by cases h⟩
  | cons c text ih =>
    rw [alternatives] at hpart
    rw [List.length_cons]
    split_ifs at hpart with hc
    · cases List.mem_cons.mp hpart with
      | inl hpart =>
        rw [hpart, List.length_nil]
        exact ⟨Nat.zero_le _, fun _ => Nat.succ_pos _⟩
      | inr hpart =>
        have hle := (ih hpart).1
        exact ⟨by omega, fun _ => by omega⟩
    · have hbar : '|' ∈ c :: text → '|' ∈ text := fun h => (List.mem_cons.mp h).resolve_left fun h => hc h.symm
      cases halternatives : alternatives text with
      | nil =>
        rw [halternatives] at hpart
        cases hpart
      | cons first others =>
        rw [halternatives, List.modifyHead_cons] at hpart
        rw [halternatives] at ih
        cases List.mem_cons.mp hpart with
        | inl hpart =>
          obtain ⟨hle, hlt⟩ := ih List.mem_cons_self
          rw [hpart, List.length_cons]
          exact ⟨Nat.succ_le_succ hle, fun h => Nat.succ_lt_succ (hlt (hbar h))⟩
        | inr hpart =>
          have hle := (ih (List.mem_cons_of_mem _ hpart)).1
          exact ⟨by omega, fun _ => by omega⟩

end Tokens

/-! ## A text behind a star -/

section Behind
variable {brackets : Brackets} {text name : List Char}

theorem valueMatch_star_iff (h : '|' ∉ text) : valueMatch brackets ('*' :: text) name = true ↔
    ∃ rest, rest <:+ name ∧ globMatch (tokens brackets text.length text) rest = true := by
  have hbar : '|' ∉ '*' :: text := fun hmem => (List.mem_cons.mp hmem).elim (by decide) h
  rw [valueMatch, alternatives_eq hbar, List.any_cons, List.any_nil, Bool.or_false]
  exact globMatch_star_iff

theorem valueMatch_literal (h : Literal brackets text) : valueMatch brackets ('*' :: text) name = true ↔ text <:+ name := by
  rw [valueMatch_star_iff h.bar, tokens_flat h.flat le_rfl]
  constructor
  · rintro ⟨rest, hrest, hmatch⟩
    rwa [(globMatch_singles h.question).mp hmatch] at hrest
  · exact fun hsuffix => ⟨text, hsuffix, (globMatch_singles h.question).mpr rfl⟩

/-- A match of one part of a text with a bar is shorter than the text. -/
theorem exists_shorter_of_bar (hbar : '|' ∈ text) (h : valueMatch brackets ('*' :: text) name = true) :
    ∃ name', valueMatch brackets ('*' :: text) name' = true ∧ name'.length < text.length := by
  obtain ⟨part, hpart, hmatch⟩ := List.any_eq_true.mp h
  obtain ⟨name', hname', hlength⟩ := exists_shortest hmatch
  refine ⟨name', List.any_eq_true.mpr ⟨part, hpart, hname'⟩, ?_⟩
  rw [hlength]
  rw [alternatives, if_neg (by decide)] at hpart
  cases halternatives : alternatives text with
  | nil =>
    rw [halternatives] at hpart
    cases hpart
  | cons first others =>
    rw [halternatives, List.modifyHead_cons] at hpart
    cases List.mem_cons.mp hpart with
    | inl hpart =>
      have hfirst := (length_alternatives (halternatives ▸ List.mem_cons_self : first ∈ alternatives text)).2 hbar
      rw [hpart]
      exact (width_tokens brackets first.length first le_rfl).1.trans_lt hfirst
    | inr hpart =>
      have hother := (length_alternatives (halternatives ▸ List.mem_cons_of_mem _ hpart : part ∈ alternatives text)).2 hbar
      exact (width_tokens brackets part.length part le_rfl).1.trans_lt hother

/-- A star before a text means the names that end with it, exactly if nothing in the text is special. -/
theorem suffix_pattern_iff :
    (∀ name, valueMatch brackets ('*' :: text) name = true ↔ text <:+ name) ↔ Literal brackets text := by
  refine ⟨fun hall => ?_, fun h name => valueMatch_literal h⟩
  have hself : valueMatch brackets ('*' :: text) text = true := (hall text).mpr (List.suffix_refl _)
  have hlong : ∀ name, valueMatch brackets ('*' :: text) name = true → text.length ≤ name.length := fun name hname =>
    ((hall name).mp hname).length_le
  have hbar : '|' ∉ text := by
    intro hmem
    obtain ⟨name, hname, hlength⟩ := exists_shorter_of_bar hmem hself
    exact absurd (hlong name hname) (Nat.not_le.mpr hlength)
  have hflat : Flat brackets text := by
    by_contra hflat
    obtain ⟨rest, -, hrest⟩ := (valueMatch_star_iff hbar).mp hself
    obtain ⟨name, hname, hlength⟩ := exists_shortest hrest
    have hshort := (width_tokens brackets text.length text le_rfl).2 hflat
    have hmatch := (valueMatch_star_iff hbar).mpr ⟨name, List.suffix_refl _, hname⟩
    exact absurd (hlong name hmatch) (by omega)
  refine ⟨hflat, hbar, fun hquestion => ?_⟩
  have hreplaced := globMatch_replaced text
  rw [← tokens_flat hflat le_rfl] at hreplaced
  have hsuffix := (hall _).mp ((valueMatch_star_iff hbar).mpr ⟨_, List.suffix_refl _, hreplaced⟩)
  have heq : text = text.map fun c => if c = '?' then 'x' else c := hsuffix.eq_of_length (List.length_map _).symm
  rw [heq] at hquestion
  obtain ⟨c, -, hc⟩ := List.mem_map.mp hquestion
  split_ifs at hc with h
  · exact absurd hc (by decide)
  · exact h hc

end Behind

end Sunshine.Globs
