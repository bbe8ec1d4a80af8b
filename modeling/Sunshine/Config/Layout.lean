import Sunshine.Config.Independence

/-! Options and their layout: blanks around the sign, trailing blanks and comments.

The reader gives back the name and what stands between the blanks in front of the value and the comment. So the value
comes back exactly if no blanks are behind it: `layout_iff`. -/
namespace Sunshine.Config
open Trimming
set_option autoImplicit false

/-- An option on a line of its own. The value starts no list. -/
structure OptionLine where
  indent : Text
  name : Text
  before : Text
  after : Text
  value : Text
  trailing : Text
  comment : Option Text
  indent_blank : ∀ ch ∈ indent, spaceTab ch = true
  name_plain : PlainKey name
  before_blank : ∀ ch ∈ before, spaceTab ch = true
  after_blank : ∀ ch ∈ after, spaceTab ch = true
  value_marks : ∀ ch ∈ value, ch ≠ '#' ∧ endline ch = false
  value_head : ∀ ch ∈ value.head?, spaceTab ch = false ∧ ch ≠ '['
  value_last : ∀ ch ∈ value.getLast?, spaceTab ch = false
  trailing_blank : ∀ ch ∈ trailing, spaceTab ch = true
  comment_line : ∀ text ∈ comment, ∀ ch ∈ text, endline ch = false

namespace OptionLine

variable (line : OptionLine)

def marked : Text := line.comment.elim [] ('#' :: ·)

/-- From the name to the end of the line. -/
def visible : Text :=
  line.name ++ line.before ++ '=' :: (line.after ++ line.value ++ line.trailing ++ line.marked)

def text : Text := line.indent ++ line.visible

/-- What the reader takes for the value: an empty one leaves the blanks around it. -/
def given : Text := if line.value = [] then line.after ++ line.trailing else line.value ++ line.trailing

theorem marks_of_spaceTab {ch : Char} (hch : spaceTab ch = true) :
    ch ≠ '#' ∧ ch ≠ '=' ∧ ch ≠ '[' ∧ endline ch = false ∧ whitespace ch = true := by
  rcases of_decide_eq_true hch with rfl | rfl <;> decide

/-- Without the comment, the line has no mark of one. -/
theorem marks_uncommented : ∀ ch ∈ line.name ++ line.before ++ '=' :: (line.after ++ line.value ++ line.trailing),
    ch ≠ '#' ∧ endline ch = false := by
  have hblank : ∀ ch, spaceTab ch = true → ch ≠ '#' ∧ endline ch = false := fun ch hch =>
    ⟨(marks_of_spaceTab hch).1, (marks_of_spaceTab hch).2.2.2.1⟩
  intro ch hch
  simp only [List.mem_append, List.mem_cons] at hch
  rcases hch with (hname | hbefore) | rfl | (hafter | hvalue) | htrailing
  · exact ⟨(line.name_plain.marks ch hname).1, (line.name_plain.marks ch hname).2.2⟩
  · exact hblank ch (line.before_blank ch hbefore)
  · decide
  · exact hblank ch (line.after_blank ch hafter)
  · exact line.value_marks ch hvalue
  · exact hblank ch (line.trailing_blank ch htrailing)

theorem marked_line : ∀ ch ∈ line.marked, endline ch = false := by
  unfold marked
  cases hcomment : line.comment with
  | none => nofun
  | some comment =>
    intro ch hch
    rcases List.mem_cons.mp hch with rfl | hmem
    · decide
    · exact line.comment_line comment hcomment ch hmem

theorem visible_eq : line.visible =
    line.name ++ line.before ++ '=' :: (line.after ++ line.value ++ line.trailing) ++ line.marked := by
  simp [visible]

theorem visible_line : ∀ ch ∈ line.visible, endline ch = false := by
  intro ch hch
  rw [visible_eq] at hch
  rcases List.mem_append.mp hch with hmem | hmem
  · exact (line.marks_uncommented ch hmem).2
  · exact line.marked_line ch hmem

theorem takeWhile_marked {front : Text} (hfront : ∀ ch ∈ front, ch ≠ '#') :
    ((front ++ line.marked).takeWhile (· ≠ '#')) = front := by
  rw [List.takeWhile_append_of_pos fun ch hch => decide_eq_true (hfront ch hch)]
  unfold marked
  cases line.comment with
  | none => exact List.append_nil front
  | some comment => exact List.append_nil front

/-- The value behind the sign, without the blanks behind it. -/
theorem rdropWhile_value : (line.after ++ line.value ++ line.trailing).rdropWhile whitespace =
    if line.value = [] then [] else line.after ++ line.value := by
  have htrailing : ∀ ch ∈ line.trailing, whitespace ch = true := fun ch hch =>
    (marks_of_spaceTab (line.trailing_blank ch hch)).2.2.2.2
  rw [rdropWhile_append_all whitespace _ _ htrailing]
  by_cases hvalue : line.value = []
  · rw [if_pos hvalue, hvalue, List.append_nil, List.rdropWhile_eq_nil_iff]
    exact fun ch hch => (marks_of_spaceTab (line.after_blank ch hch)).2.2.2.2
  · rw [if_neg hvalue]
    have hlast : whitespace (line.value.getLast hvalue) = false := by
      rw [whitespace, line.value_last _ (List.getLast?_eq_some_getLast hvalue),
        (line.value_marks _ (List.getLast_mem hvalue)).2, Bool.or_false]
    rw [rdropWhile_append whitespace _ _ ⟨_, List.getLast_mem hvalue, hlast⟩, List.rdropWhile_eq_self_iff.mpr]
    intro _
    rw [hlast]
    exact Bool.false_ne_true

theorem optionBody_visible : optionBody line.visible = line.name ++ line.before ++
    '=' :: (if line.value = [] then [] else line.after ++ line.value) := by
  have hline : (line.visible.takeWhile fun ch => !endline ch) = line.visible :=
    List.takeWhile_eq_self_iff.mpr fun ch hch => by rw [line.visible_line ch hch]; rfl
  rw [optionBody, hline, visible_eq, line.takeWhile_marked fun ch hch => (line.marks_uncommented ch hch).1,
    rdropWhile_append whitespace _ _ ⟨'=', List.mem_cons_self, by decide⟩,
    rdropWhile_cons whitespace '=' _ (by decide), rdropWhile_value]

theorem takeWhile_name (behind : Text) :
    (line.name ++ line.before ++ '=' :: behind).takeWhile (· ≠ '=') = line.name ++ line.before := by
  have hmarks : ∀ ch ∈ line.name ++ line.before, decide (ch ≠ '=') = true := by
    intro ch hch
    refine decide_eq_true ?_
    rcases List.mem_append.mp hch with hname | hbefore
    · exact (line.name_plain.marks ch hname).2.1
    · exact (marks_of_spaceTab (line.before_blank ch hbefore)).2.1
  rw [List.takeWhile_append_of_pos hmarks, List.takeWhile_cons_of_neg (by simp), List.append_nil]

theorem dropWhile_text : line.text.dropWhile whitespace = line.visible := by
  rw [text, List.dropWhile_append_of_pos fun ch hch => (marks_of_spaceTab (line.indent_blank ch hch)).2.2.2.2]
  obtain ⟨ch, name, hname⟩ := List.exists_cons_of_ne_nil line.name_plain.nonempty
  have hblank : whitespace ch = false := by
    rw [whitespace, line.name_plain.head ch (by rw [hname]; rfl),
      (line.name_plain.marks ch (hname ▸ List.mem_cons_self)).2.2, Bool.or_false]
  rw [visible, hname]
  exact List.dropWhile_cons_of_neg (by rw [hblank]; exact Bool.false_ne_true)

theorem visible_ne_nil : line.visible ≠ [] := by
  simp [visible]

theorem isOption_text : isOption line.text = true := by
  rw [isOption_iff, dropWhile_text, optionBody_visible, takeWhile_name]
  refine ⟨fun heq => ?_, List.append_ne_nil_of_left_ne_nil line.name_plain.nonempty _⟩
  have hlength := congrArg List.length heq
  simp at hlength

theorem nameAt_text : nameAt line.text = line.name := by
  rw [nameAt, dropWhile_text, optionBody_visible, takeWhile_name,
    rdropWhile_append_all spaceTab _ _ line.before_blank, List.rdropWhile_eq_self_iff.mpr]
  · exact toText_eq _ fun ch hch => (line.name_plain.marks ch hch).1
  · intro hne
    rw [line.name_plain.last _ (List.getLast?_eq_some_getLast hne)]
    exact Bool.false_ne_true

theorem lineEnd_text : lineEnd line.text = [] := by
  rw [lineEnd, dropWhile_text, List.dropWhile_eq_nil_iff]
  intro ch hch
  rw [line.visible_line ch hch]
  rfl

theorem takeWhile_given : ((if line.value = [] then [] else line.after ++ line.value).takeWhile spaceTab) =
    if line.value = [] then [] else line.after := by
  cases hvalue : line.value with
  | nil => rfl
  | cons ch value =>
    have hhead := (line.value_head ch (by rw [hvalue]; rfl)).1
    rw [if_neg (List.cons_ne_nil _ _), if_neg (List.cons_ne_nil _ _), List.takeWhile_append_of_pos line.after_blank,
      List.takeWhile_cons_of_neg (by rw [hhead]; exact Bool.false_ne_true), List.append_nil]

theorem valueAt_text : valueAt line.text = line.given ++ line.marked := by
  have hcut (behind : Text) : (line.name ++ line.before ++ '=' :: behind).drop
      ((line.name ++ line.before).length + 1) = behind := by
    rw [show line.name ++ line.before ++ '=' :: behind = (line.name ++ line.before ++ ['=']) ++ behind by simp]
    exact List.drop_left' (by simp [Nat.add_assoc])
  rw [valueAt, dropWhile_text, valueOffset, optionBody_visible, takeWhile_name]
  rw [hcut, takeWhile_given, ← List.drop_drop, visible, hcut]
  unfold given
  by_cases hvalue : line.value = []
  · rw [if_pos hvalue, if_pos hvalue, hvalue, List.append_nil]
    rfl
  · rw [if_neg hvalue, if_neg hvalue, List.append_assoc, List.append_assoc, List.drop_left, List.append_assoc]

theorem given_marks : ∀ ch ∈ line.given, ch ≠ '#' := by
  intro ch hch
  refine (line.marks_uncommented ch ?_).1
  unfold given at hch
  split at hch <;> simp only [List.mem_append, List.mem_cons] at hch ⊢ <;> tauto

theorem head_given : (line.given ++ line.marked).head? ≠ some '[' := by
  intro hhead
  have hmarked : line.marked.head? ≠ some '[' := by
    unfold marked
    cases line.comment with
    | none => nofun
    | some comment => simp
  have hblanks : ∀ blank : Text, (∀ ch ∈ blank, spaceTab ch = true) → (blank ++ line.marked).head? ≠ some '[' := by
    intro blank hblank
    cases blank with
    | nil => exact hmarked
    | cons ch blank =>
      have hne := (marks_of_spaceTab (hblank ch List.mem_cons_self)).2.2.1
      simpa using hne
  unfold given at hhead
  cases hvalue : line.value with
  | nil =>
    rw [if_pos hvalue] at hhead
    refine hblanks (line.after ++ line.trailing) (fun ch hch => ?_) hhead
    exact (List.mem_append.mp hch).elim (line.after_blank ch) (line.trailing_blank ch)
  | cons ch value =>
    rw [if_neg (by rw [hvalue]; exact List.cons_ne_nil _ _), hvalue] at hhead
    exact (line.value_head ch (by rw [hvalue]; rfl)).2 (by simpa using hhead)

theorem parseOption_text : parseOption line.text =
    ([], if line.given ++ line.marked = [] then none else some (line.name, line.given)) := by
  rw [parseOption_is line.isOption_text, valueAt_text, lineEnd_text, nameAt_text, if_neg line.head_given]
  by_cases hnil : line.given ++ line.marked = []
  · rw [if_pos hnil, hnil]
    rfl
  · have hlength : ¬(line.given ++ line.marked).length = ([] : Text).length := fun h =>
      hnil (List.length_eq_zero_iff.mp h)
    rw [if_neg hnil, if_neg hlength]
    have hvalue : textBetween (line.given ++ line.marked) [] = line.given := by
      rw [textBetween, List.length_nil, Nat.sub_zero, List.take_length, toText_append _ _ line.given_marks]
      unfold marked
      cases hcomment : line.comment with
      | none => exact List.append_nil _
      | some comment =>
        show line.given ++ toText false ('#' :: comment) = _
        rw [toText, if_neg Bool.false_ne_true, if_pos rfl, toText_comment _ (line.comment_line comment hcomment),
          List.append_nil]
    rw [hvalue]

/-- The line in a file: what is read of it does not depend on what follows its end. -/
theorem parseOption_line {rest : Text} (hrest : rest = [] ∨ EndsLine rest) : parseOption (line.text ++ rest) =
    (rest, if line.given ++ line.marked = [] then none else some (line.name, line.given)) := by
  rcases hrest with rfl | hrest
  · rw [List.append_nil, parseOption_text]
  · have hvisible : line.text.dropWhile whitespace ≠ [] := by
      rw [dropWhile_text]
      exact line.visible_ne_nil
    have hclosed : leavesOpen line.text = false := by
      rw [Bool.eq_false_iff]
      intro hopen
      have hhead := ((leavesOpen_iff _).mp hopen).2.1
      rw [valueAt_text] at hhead
      exact line.head_given hhead
    rw [parseOption_cut hvisible hclosed hrest, parseOption_text]
    rfl

theorem marked_eq_nil : line.marked = [] ↔ line.comment = none := by
  unfold marked
  cases line.comment with
  | none => exact iff_of_true rfl rfl
  | some comment => exact iff_of_false (List.cons_ne_nil _ _) (Option.some_ne_none comment)

/-- The value comes back exactly if nothing blank is behind it; an empty one needs a comment right behind the sign. -/
theorem parseOption_iff {rest : Text} (hrest : rest = [] ∨ EndsLine rest) :
    parseOption (line.text ++ rest) = (rest, some (line.name, line.value)) ↔
      line.trailing = [] ∧ (line.value = [] → line.after = [] ∧ line.comment ≠ none) := by
  rw [line.parseOption_line hrest, Prod.mk.injEq, eq_self, true_and]
  by_cases hvalue : line.value = []
  · have hgiven : line.given = line.after ++ line.trailing := if_pos hvalue
    simp only [hvalue, forall_const, List.append_eq_nil_iff, marked_eq_nil, hgiven]
    split
    · next hnil => exact iff_of_false (Option.some_ne_none _).symm fun h => h.2.2 hnil.2
    · next hsome =>
      simp only [Option.some.injEq, Prod.mk.injEq, true_and, List.append_eq_nil_iff]
      constructor
      · rintro ⟨hafter, htrailing⟩
        exact ⟨htrailing, hafter, fun hcomment => hsome ⟨⟨hafter, htrailing⟩, hcomment⟩⟩
      · rintro ⟨htrailing, hafter, -⟩
        exact ⟨hafter, htrailing⟩
  · have hgiven : line.given = line.value ++ line.trailing := if_neg hvalue
    have hne : ¬line.value ++ line.trailing ++ line.marked = [] := by simp [hvalue]
    rw [hgiven, if_neg hne, Option.some.injEq, Prod.mk.injEq, eq_self, true_and, List.append_right_eq_self]
    exact (and_iff_left fun hnil => absurd hnil hvalue).symm

end OptionLine

/-- The layout of a line is passed over exactly if no blanks are behind its value, and what follows a text is read as if
it stood alone exactly if the text does not end in an open list, nor in a line that a lone carriage return ends. -/
theorem layout_iff (line : OptionLine) (file : Text) (eol : LineBreak) :
    (∀ rest, rest = [] ∨ EndsLine rest →
      (parseOption (line.text ++ rest) = (rest, some (line.name, line.value)) ↔
        line.trailing = [] ∧ (line.value = [] → line.after = [] ∧ line.comment ≠ none))) ∧
    (Independent file eol ↔ ending file = .blank ∨ ending file = .line ∧ eol ≠ .cr) :=
  ⟨fun _ hrest => line.parseOption_iff hrest, independent_iff file eol⟩

/-- A blank in front of a comment stays in the value, and an open list takes the option behind it. -/
theorem layout_kept :
    parseOption "port = 47989 # web".toList = ([], some ("port".toList, "47989 ".toList)) ∧
      options "apps = [x\nport = 47989".toList = [("apps".toList, "[x\nport = 47989".toList)] ∧
      options "port = 47989".toList = [("port".toList, "47989".toList)] := by
  decide

end Sunshine.Config
