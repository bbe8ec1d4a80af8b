import Sunshine.Config.Lines

/-! The options of a file in the order the reader finds them, and what a following text changes of them.

The reader finds the options of a text in front of a line end as if nothing followed, unless the text leaves a list
open or the line end is a lone carriage return: `parseOption_cut`. -/
namespace Sunshine.Config
set_option autoImplicit false

/-! ## One option -/

/-- How far the value is behind the start of the line. -/
def valueOffset (line : Text) : ℕ :=
  let body := optionBody line
  let name := body.takeWhile (· ≠ '=')
  name.length + 1 + ((body.drop (name.length + 1)).takeWhile spaceTab).length

/-- `beginVal` of `parseOption`. -/
def valueAt (pos : Text) : Text := (pos.dropWhile whitespace).drop (valueOffset (pos.dropWhile whitespace))

def isOption (pos : Text) : Bool :=
  let body := optionBody (pos.dropWhile whitespace)
  let name := body.takeWhile (· ≠ '=')
  name ≠ body ∧ name ≠ []

/-- `endName` of `parseOption`. -/
def nameAt (pos : Text) : Text :=
  toText false (((optionBody (pos.dropWhile whitespace)).takeWhile (· ≠ '=')).rdropWhile spaceTab)

/-- The rest behind the line. -/
def lineEnd (pos : Text) : Text := (pos.dropWhile whitespace).dropWhile fun ch => !endline ch

/-- The text between two iterators, without its comments. -/
def textBetween (beginVal endl : Text) : Text := toText false (beginVal.take (beginVal.length - endl.length))

/-- The end of the text comes before the bracket that closes the `stack`-th open one. -/
def unclosed : ℕ → Text → Bool
  | 0, _ => false
  | _ + 1, [] => true
  | stack + 1, ch :: text =>
    unclosed (if ch = '[' then stack + 2 else if ch = ']' then stack else stack + 1) text

/-- The value of the option is a list that is not closed. -/
def leavesOpen (pos : Text) : Bool :=
  isOption pos ∧ (valueAt pos).head? = some '[' ∧ unclosed 1 (valueAt pos).tail = true

section Cut

variable {line rest : Text}

/-- The text starts with the end of a line. -/
def EndsLine (rest : Text) : Prop := ∃ ch more, rest = ch :: more ∧ endline ch = true

theorem takeWhile_cut (hrest : EndsLine rest) (line : Text) :
    ((line ++ rest).takeWhile fun ch => !endline ch) = line.takeWhile fun ch => !endline ch := by
  obtain ⟨e, more, rfl, he⟩ := hrest
  induction line with
  | nil => exact List.takeWhile_cons_of_neg (by simp [he])
  | cons ch line ih => rw [List.cons_append, List.takeWhile_cons, List.takeWhile_cons, ih]

theorem dropWhile_cut (hrest : EndsLine rest) (line : Text) :
    ((line ++ rest).dropWhile fun ch => !endline ch) = (line.dropWhile fun ch => !endline ch) ++ rest := by
  obtain ⟨e, more, rfl, he⟩ := hrest
  induction line with
  | nil => exact List.dropWhile_cons_of_neg (by simp [he])
  | cons ch line ih =>
    rw [List.cons_append, List.dropWhile_cons, List.dropWhile_cons, ih]
    split <;> rfl

theorem optionBody_cut (hrest : EndsLine rest) (line : Text) : optionBody (line ++ rest) = optionBody line := by
  rw [optionBody, optionBody, takeWhile_cut hrest]

theorem dropWhile_visible_cut {pos : Text} (hvisible : pos.dropWhile whitespace ≠ []) (rest : Text) :
    (pos ++ rest).dropWhile whitespace = pos.dropWhile whitespace ++ rest := by
  rw [List.dropWhile_append, if_neg]
  rwa [List.isEmpty_iff]

theorem isOption_cut {pos : Text} (hvisible : pos.dropWhile whitespace ≠ []) (hrest : EndsLine rest) :
    isOption (pos ++ rest) = isOption pos := by
  unfold isOption
  rw [dropWhile_visible_cut hvisible, optionBody_cut hrest]

theorem isOption_iff (pos : Text) : isOption pos = true ↔
    (optionBody (pos.dropWhile whitespace)).takeWhile (· ≠ '=') ≠ optionBody (pos.dropWhile whitespace) ∧
      (optionBody (pos.dropWhile whitespace)).takeWhile (· ≠ '=') ≠ [] :=
  decide_eq_true_iff

theorem parseOption_not {pos : Text} (h : isOption pos = false) : parseOption pos = (lineEnd pos, none) := by
  unfold parseOption
  simp only
  refine if_pos ?_
  by_contra hnot
  rw [not_or] at hnot
  rw [(isOption_iff pos).mpr hnot] at h
  cases h

theorem parseOption_is {pos : Text} (h : isOption pos = true) : parseOption pos =
    if (valueAt pos).length = (lineEnd pos).length then (lineEnd pos, none)
    else if (valueAt pos).head? = some '[' then
      if skipList 1 (valueAt pos).tail = [] ∧ (valueAt pos).tail = [] then (skipList 1 (valueAt pos).tail, none)
      else (skipList 1 (valueAt pos).tail,
        some (nameAt pos, textBetween (valueAt pos) (skipList 1 (valueAt pos).tail)))
    else (lineEnd pos, some (nameAt pos, textBetween (valueAt pos) (lineEnd pos))) := by
  obtain ⟨hbody, hname⟩ := (isOption_iff pos).mp h
  unfold parseOption
  simp only
  rw [if_neg (not_or.mpr ⟨hbody, hname⟩)]
  rfl

theorem lineEnd_cut {pos : Text} (hvisible : pos.dropWhile whitespace ≠ []) (hrest : EndsLine rest) :
    lineEnd (pos ++ rest) = lineEnd pos ++ rest := by
  rw [lineEnd, dropWhile_visible_cut hvisible, dropWhile_cut hrest]
  rfl

theorem nameAt_cut {pos : Text} (hvisible : pos.dropWhile whitespace ≠ []) (hrest : EndsLine rest) :
    nameAt (pos ++ rest) = nameAt pos := by
  rw [nameAt, dropWhile_visible_cut hvisible, optionBody_cut hrest]
  rfl

/-- The value starts before the end of the line. -/
theorem valueOffset_le {pos : Text} (h : isOption pos = true) : valueOffset (pos.dropWhile whitespace) ≤
    ((pos.dropWhile whitespace).takeWhile fun ch => !endline ch).length := by
  have hname := ((isOption_iff pos).mp h).1
  have hfront := List.takeWhile_prefix (· ≠ '=') (l := optionBody (pos.dropWhile whitespace))
  have hlength := Nat.lt_of_le_of_ne hfront.length_le fun heq => hname (hfront.eq_of_length heq)
  have hbody : (optionBody (pos.dropWhile whitespace)).length ≤
      ((pos.dropWhile whitespace).takeWhile fun ch => !endline ch).length :=
    ((List.rdropWhile_prefix _ _).trans (List.takeWhile_prefix _)).length_le
  have hblank := (List.takeWhile_prefix spaceTab (l := (optionBody (pos.dropWhile whitespace)).drop
    (((optionBody (pos.dropWhile whitespace)).takeWhile (· ≠ '=')).length + 1))).length_le
  rw [List.length_drop] at hblank
  unfold valueOffset
  dsimp only
  omega

theorem lineEnd_length_le {pos : Text} (h : isOption pos = true) : (lineEnd pos).length ≤ (valueAt pos).length := by
  have hle := valueOffset_le h
  have hsplit := congrArg List.length
    (List.takeWhile_append_dropWhile (p := fun ch => !endline ch) (l := pos.dropWhile whitespace))
  rw [List.length_append] at hsplit
  rw [lineEnd, valueAt, List.length_drop]
  omega

theorem valueAt_cut {pos : Text} (h : isOption pos = true) (hvisible : pos.dropWhile whitespace ≠ [])
    (hrest : EndsLine rest) : valueAt (pos ++ rest) = valueAt pos ++ rest := by
  have hle := (valueOffset_le h).trans (List.takeWhile_prefix _).length_le
  have hoffset : valueOffset (pos.dropWhile whitespace ++ rest) = valueOffset (pos.dropWhile whitespace) := by
    rw [valueOffset, valueOffset, optionBody_cut hrest]
  rw [valueAt, valueAt, dropWhile_visible_cut hvisible, hoffset, List.drop_append_of_le_length hle]

theorem textBetween_cut (beginVal endl rest : Text) :
    textBetween (beginVal ++ rest) (endl ++ rest) = textBetween beginVal endl := by
  have hlength : (beginVal ++ rest).length - (endl ++ rest).length = beginVal.length - endl.length := by
    rw [List.length_append, List.length_append]
    omega
  rw [textBetween, textBetween, hlength, List.take_append_of_le_length (Nat.sub_le _ _)]

/-! ## Lists -/

theorem skipList_cut (stack : ℕ) (text rest : Text) (h : unclosed stack text = false) :
    skipList stack (text ++ rest) = skipList stack text ++ rest := by
  induction text generalizing stack with
  | nil =>
    cases stack with
    | zero => rw [skipList, skipList]
    | succ stack => cases h
  | cons ch text ih =>
    cases stack with
    | zero => rw [skipList, skipList]
    | succ stack =>
      rw [unclosed] at h
      rw [List.cons_append, skipList, skipList]
      exact ih _ h

/-- Without a closing bracket the text is skipped to its end. -/
theorem skipList_open (stack : ℕ) (text : Text) (h : ∀ ch ∈ text, ch ≠ ']') : skipList (stack + 1) text = [] := by
  induction text generalizing stack with
  | nil => rfl
  | cons ch text ih =>
    obtain ⟨hch, htext⟩ := List.forall_mem_cons.mp h
    rw [skipList, if_neg hch]
    split
    · exact ih (stack + 1) htext
    · exact ih stack htext

theorem skipList_unclosed (stack : ℕ) (text rest : Text) (h : unclosed stack text = true)
    (hrest : ∀ ch ∈ rest, ch ≠ ']') : skipList stack (text ++ rest) = [] := by
  induction text generalizing stack with
  | nil =>
    cases stack with
    | zero => cases h
    | succ stack => exact skipList_open stack rest hrest
  | cons ch text ih =>
    cases stack with
    | zero => cases h
    | succ stack =>
      rw [unclosed] at h
      rw [List.cons_append, skipList]
      exact ih _ h

theorem leavesOpen_iff (pos : Text) : leavesOpen pos = true ↔
    isOption pos = true ∧ (valueAt pos).head? = some '[' ∧ unclosed 1 (valueAt pos).tail = true :=
  decide_eq_true_iff

/-- What the reader finds in a text that leaves no list open does not depend on what follows its line end. -/
theorem parseOption_cut {pos : Text} (hvisible : pos.dropWhile whitespace ≠ []) (hclosed : leavesOpen pos = false)
    (hrest : EndsLine rest) : parseOption (pos ++ rest) = ((parseOption pos).1 ++ rest, (parseOption pos).2) := by
  have hrest' : rest ≠ [] := by
    obtain ⟨ch, more, rfl, -⟩ := hrest
    exact List.cons_ne_nil ch more
  cases hoption : isOption pos with
  | false => rw [parseOption_not hoption, parseOption_not (isOption_cut hvisible hrest ▸ hoption), lineEnd_cut hvisible hrest]
  | true =>
    rw [parseOption_is hoption, parseOption_is (isOption_cut hvisible hrest ▸ hoption), lineEnd_cut hvisible hrest,
      valueAt_cut hoption hvisible hrest, nameAt_cut hvisible hrest]
    by_cases hempty : (valueAt pos).length = (lineEnd pos).length
    · rw [if_pos hempty, if_pos (by rw [List.length_append, List.length_append, hempty])]
    · rw [if_neg hempty, if_neg (by rw [List.length_append, List.length_append]; omega)]
      have hlength := lineEnd_length_le hoption
      have hvalue : valueAt pos ≠ [] := by
        intro hnil
        rw [hnil] at hempty hlength
        exact hempty (Nat.le_antisymm (Nat.zero_le _) hlength)
      obtain ⟨ch, tail, hcons⟩ := List.exists_cons_of_ne_nil hvalue
      rw [hcons]
      by_cases hlist : ch = '['
      · subst hlist
        have hunclosed : unclosed 1 tail = false := by
          rw [Bool.eq_false_iff]
          intro hopen
          rw [(leavesOpen_iff pos).mpr ⟨hoption, by rw [hcons]; rfl, by rw [hcons]; exact hopen⟩] at hclosed
          cases hclosed
        have htail : tail ≠ [] := by
          rintro rfl
          cases hunclosed
        simp only [List.cons_append, List.head?_cons, List.tail_cons, if_true, skipList_cut 1 tail rest hunclosed,
          List.append_eq_nil_iff, hrest', htail, and_false, if_false]
        rw [← List.cons_append, textBetween_cut]
      · have hhead : ¬(some ch = some '[') := fun heq => hlist (Option.some.inj heq)
        simp only [List.cons_append, List.head?_cons, hhead, if_false]
        rw [← List.cons_append, textBetween_cut]

theorem valueAt_suffix (pos : Text) : valueAt pos <:+ pos.dropWhile whitespace := List.drop_suffix _ _

theorem lineEnd_suffix (pos : Text) : lineEnd pos <:+ pos.dropWhile whitespace := List.dropWhile_suffix _

/-- A list does not start at the end of the line. -/
theorem length_ne_of_list {pos : Text} (hhead : (valueAt pos).head? = some '[') :
    (valueAt pos).length ≠ (lineEnd pos).length := by
  intro hlength
  have hsuffix := List.suffix_of_suffix_length_le (valueAt_suffix pos) (lineEnd_suffix pos) hlength.le
  have hnot := List.head?_dropWhile_not (fun ch => !endline ch) (pos.dropWhile whitespace)
  rw [hsuffix.eq_of_length hlength, lineEnd] at hhead
  rw [hhead] at hnot
  exact absurd hnot (by decide)

theorem parseOption_list_end {pos : Text} (hoption : isOption pos = true) (hhead : (valueAt pos).head? = some '[')
    (hskip : skipList 1 (valueAt pos).tail = []) : (parseOption pos).1 = [] := by
  rw [parseOption_is hoption, if_neg (length_ne_of_list hhead), if_pos hhead]
  split
  · exact hskip
  · exact hskip

/-- The option takes everything that has no closing bracket. -/
theorem parseOption_open {pos : Text} (hopen : leavesOpen pos = true) (hvisible : pos.dropWhile whitespace ≠ [])
    (hrest : EndsLine rest) (hbrackets : ∀ ch ∈ rest, ch ≠ ']') : (parseOption (pos ++ rest)).1 = [] := by
  obtain ⟨hoption, hhead, hunclosed⟩ := (leavesOpen_iff pos).mp hopen
  have hvalue := valueAt_cut hoption hvisible hrest
  obtain ⟨ch, tail, hcons⟩ : ∃ ch tail, valueAt pos = ch :: tail := by
    refine List.exists_cons_of_ne_nil ?_
    intro hnil
    rw [hnil] at hhead
    cases hhead
  rw [hcons] at hhead hunclosed hvalue
  refine parseOption_list_end (isOption_cut hvisible hrest ▸ hoption) (by rw [hvalue]; exact hhead) ?_
  rw [hvalue]
  exact skipList_unclosed 1 tail rest hunclosed hbrackets

theorem parseOption_open_end {pos : Text} (hopen : leavesOpen pos = true) : (parseOption pos).1 = [] := by
  obtain ⟨hoption, hhead, hunclosed⟩ := (leavesOpen_iff pos).mp hopen
  refine parseOption_list_end hoption hhead ?_
  have hskip := skipList_unclosed 1 _ [] hunclosed (List.forall_mem_nil _)
  rwa [List.append_nil] at hskip

end Cut

/-! ## The options of a file -/

/-- Where the passes of `parse_config` start. -/
def passes : ℕ → Text → List Text
  | 0, _ => []
  | fuel + 1, pos => if pos = [] then [] else pos :: passes fuel (nextLine (parseOption pos).1)

def positions (file : Text) : List Text := passes file.length file

/-- The options in the order the reader finds them. -/
def options (file : Text) : List (Text × Text) := (positions file).flatMap fun pos => (parseOption pos).2.toList

theorem passes_fuel (fuel : ℕ) (pos : Text) (h : pos.length ≤ fuel) : passes fuel pos = positions pos := by
  unfold positions
  induction fuel using Nat.strong_induction_on generalizing pos with
  | _ fuel ih =>
    cases fuel with
    | zero => rw [Nat.le_zero.mp h]
    | succ fuel =>
      cases hpos : pos with
      | nil => rfl
      | cons ch rest =>
        have hnext := nextPass_lt (List.cons_ne_nil ch rest)
        rw [hpos, List.length_cons] at h
        rw [List.length_cons] at hnext ⊢
        rw [passes, if_neg (List.cons_ne_nil _ _), passes, if_neg (List.cons_ne_nil _ _),
          ih fuel (Nat.lt_succ_self _) _ (by omega), ih rest.length (by omega) _ (by omega)]

theorem positions_eq {pos : Text} (h : pos ≠ []) :
    positions pos = pos :: positions (nextLine (parseOption pos).1) := by
  have hnext := nextPass_lt h
  rw [positions]
  obtain ⟨fuel, hfuel⟩ := Nat.exists_eq_succ_of_ne_zero (Nat.ne_of_gt (List.length_pos_iff.mpr h))
  rw [hfuel, passes, if_neg h, passes_fuel fuel _ (by omega)]

theorem options_eq {pos : Text} (h : pos ≠ []) :
    options pos = (parseOption pos).2.toList ++ options (nextLine (parseOption pos).1) := by
  rw [options, positions_eq h, List.flatMap_cons]
  rfl

theorem parseLoop_eq (fuel : ℕ) (pos : Text) (vars : List (Text × Text)) :
    parseLoop fuel pos vars =
      ((passes fuel pos).flatMap fun pos => (parseOption pos).2.toList).foldl emplace vars := by
  induction fuel generalizing pos vars with
  | zero => rfl
  | succ fuel ih =>
    rw [parseLoop, passes]
    split
    · rfl
    · dsimp only
      rw [ih, List.flatMap_cons, List.foldl_append]
      cases (parseOption pos).2 with
      | none => rfl
      | some var => rfl

/-- The file's map has the options in order, the first one of each name. -/
theorem parseConfig_eq (fileContent : Text) : parseConfig fileContent = (options fileContent).foldl emplace [] :=
  parseLoop_eq _ _ _

theorem options_whitespace {ch : Char} (hch : whitespace ch = true) (text : Text) :
    options (ch :: text) = options text := by
  have hskip : parseOption (ch :: text) = parseOption text := by
    unfold parseOption
    rw [List.dropWhile_cons_of_pos hch]
  rw [options_eq (List.cons_ne_nil ch text), hskip]
  cases text with
  | nil => rfl
  | cons c text => exact (options_eq (List.cons_ne_nil c text)).symm

theorem options_blank {blank : Text} (hblank : ∀ ch ∈ blank, whitespace ch = true) (text : Text) :
    options (blank ++ text) = options text := by
  induction blank with
  | nil => rfl
  | cons ch blank ih =>
    obtain ⟨hch, hrest⟩ := List.forall_mem_cons.mp hblank
    rw [List.cons_append, options_whitespace hch, ih hrest]

end Sunshine.Config
