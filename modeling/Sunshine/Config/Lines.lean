import Sunshine.Config.Parse

/-! What the reader makes of lines `key = text`: the text itself exactly when the text is plain, for one line
(`parseOption_plain`, `parseOption_value`) and for a file of them (`parseLoop_plain`, `plain_of_parseLoop`). -/
namespace Sunshine.Config
open Trimming
set_option autoImplicit false

theorem take_append_sub {α : Type} (a b : List α) :
    (a ++ b).take ((a ++ b).length - b.length) = a := by
  rw [List.length_append, Nat.add_sub_cancel, List.take_left]

/-! ## One line -/

/-- What the reader sees of a text on its line. -/
def shown (text : Text) : Text := (text.takeWhile fun ch => !endline ch).takeWhile (· ≠ '#')

section Line

variable (key text rest : Text)

/-- A line as it is written, and what comes behind it. -/
def lineOf : Text := key ++ ' ' :: '=' :: ' ' :: (text ++ '\n' :: rest)

theorem takeWhile_endline (h : ∀ ch ∈ key, endline ch = false) (more : Text) :
    ((key ++ more).takeWhile fun ch => !endline ch) =
      key ++ more.takeWhile fun ch => !endline ch :=
  List.takeWhile_append_of_pos fun ch hch => by rw [h ch hch]; rfl

theorem takeWhile_line :
    ((text ++ '\n' :: rest).takeWhile fun ch => !endline ch) =
      text.takeWhile fun ch => !endline ch := by
  induction text with
  | nil => rfl
  | cons ch text ih =>
    rw [List.cons_append, List.takeWhile_cons, List.takeWhile_cons, ih]

/-- The characters between a key and its text. -/
theorem sign_marks : ∀ ch ∈ [' ', '=', ' '], ch ≠ '#' ∧ endline ch = false := by
  simp [endline]

variable {key}

theorem optionBody_line (hkey : PlainKey key) :
    optionBody (lineOf key text rest) =
      key ++ ' ' :: '=' :: (' ' :: shown text).rdropWhile whitespace := by
  have hline : ((lineOf key text rest).takeWhile fun ch => !endline ch) =
      (key ++ [' ', '=', ' ']) ++ text.takeWhile fun ch => !endline ch := by
    have hsplit : lineOf key text rest = (key ++ [' ', '=', ' ']) ++ (text ++ '\n' :: rest) := by
      rw [lineOf, List.append_assoc]
      rfl
    rw [hsplit, takeWhile_endline _ _ (text ++ '\n' :: rest), takeWhile_line]
    intro ch hch
    rcases List.mem_append.mp hch with hmem | hmem
    · exact (hkey.marks ch hmem).2.2
    · exact (sign_marks ch hmem).2
  have hhash : ((key ++ [' ', '=', ' '] ++ text.takeWhile fun ch => !endline ch).takeWhile (· ≠ '#')) =
      (key ++ [' ', '=', ' ']) ++ shown text := by
    refine List.takeWhile_append_of_pos fun ch hch => decide_eq_true ?_
    rcases List.mem_append.mp hch with hmem | hmem
    · exact (hkey.marks ch hmem).1
    · exact (sign_marks ch hmem).1
  rw [optionBody, hline, hhash, List.append_assoc]
  rw [rdropWhile_append whitespace key _ ⟨'=', by simp, by decide⟩]
  have hblank := rdropWhile_append whitespace [' '] ('=' :: ' ' :: shown text) ⟨'=', by simp, by decide⟩
  rw [show [' ', '=', ' '] ++ shown text = [' '] ++ '=' :: ' ' :: shown text from rfl, hblank,
    rdropWhile_cons whitespace '=' _ (by decide)]
  rfl

theorem dropWhile_line (hkey : PlainKey key) : (lineOf key text rest).dropWhile whitespace =
    lineOf key text rest := by
  obtain ⟨ch, key, rfl⟩ := List.exists_cons_of_ne_nil hkey.nonempty
  have hblank : whitespace ch = false := by
    rw [whitespace, hkey.head ch rfl, (hkey.marks ch List.mem_cons_self).2.2, Bool.false_or]
  exact List.dropWhile_cons_of_neg (by rw [hblank]; exact Bool.false_ne_true)

theorem dropWhile_endline (h : ∀ ch ∈ key, endline ch = false) (more : Text) :
    ((key ++ more).dropWhile fun ch => !endline ch) = more.dropWhile fun ch => !endline ch :=
  List.dropWhile_append_of_pos fun ch hch => by rw [h ch hch]; rfl

omit key in
theorem shown_blank_of_initial (blank : Text) (hblank : ∀ ch ∈ blank, spaceTab ch = true) :
    shown (blank ++ text) = blank ++ shown text := by
  have hmarks : ∀ ch, spaceTab ch = true → endline ch = false ∧ ch ≠ '#' := by
    intro ch hch
    rcases of_decide_eq_true hch with rfl | rfl <;> decide
  unfold shown
  rw [takeWhile_endline blank (fun ch hch => (hmarks ch (hblank ch hch)).1)]
  exact List.takeWhile_append_of_pos fun ch hch => decide_eq_true (hmarks ch (hblank ch hch)).2

/-- Where the value of the line starts. -/
def valueOf : Text :=
  (' ' :: (text ++ '\n' :: rest)).drop
    (((' ' :: shown text).rdropWhile whitespace).takeWhile spaceTab).length

omit key in
/-- Where the text shows blanks only, the trimming takes them and the one in front of it. -/
theorem valueOf_blank (h : ∀ ch ∈ shown text, spaceTab ch = true) :
    valueOf text rest = ' ' :: (text ++ '\n' :: rest) := by
  have hall : ∀ ch ∈ ' ' :: shown text, whitespace ch = true := by
    intro ch hch
    rcases List.mem_cons.mp hch with rfl | hmem
    · decide
    · rw [whitespace, h ch hmem, Bool.true_or]
  rw [valueOf, List.rdropWhile_eq_nil_iff.mpr hall]
  rfl

omit key in
theorem valueOf_visible (blank : Text) (ch : Char) (tail : Text)
    (hblank : ∀ b ∈ blank, spaceTab b = true) (hch : whitespace ch = false) (hhash : ch ≠ '#') :
    valueOf (blank ++ ch :: tail) rest = ch :: (tail ++ '\n' :: rest) := by
  obtain ⟨hspace, hend⟩ := Bool.or_eq_false_iff.mp hch
  have hshown : shown (ch :: tail) = ch :: shown tail := by
    unfold shown
    rw [List.takeWhile_cons_of_pos (by rw [hend]; rfl)]
    exact List.takeWhile_cons_of_pos (decide_eq_true hhash)
  have htrim : (' ' :: shown (blank ++ ch :: tail)).rdropWhile whitespace =
      (' ' :: blank) ++ ch :: (shown tail).rdropWhile whitespace := by
    rw [shown_blank_of_initial _ blank hblank, hshown, ← List.cons_append,
      rdropWhile_append whitespace (' ' :: blank) _ ⟨ch, List.mem_cons_self, hch⟩,
      rdropWhile_cons whitespace ch _ hch]
  have hblanks : ∀ b ∈ ' ' :: blank, spaceTab b = true :=
    List.forall_mem_cons.mpr ⟨by decide, hblank⟩
  rw [valueOf, htrim, List.takeWhile_append_of_pos hblanks,
    List.takeWhile_cons_of_neg (by rw [hspace]; exact Bool.false_ne_true), List.append_nil,
    List.append_assoc, List.cons_append, ← List.cons_append, List.drop_left]

omit key in
/-- The value starts behind the blanks of the text, but not where the text shows nothing else. -/
theorem valueOf_cases :
    ((∀ ch ∈ shown text, spaceTab ch = true) ∧ valueOf text rest = ' ' :: (text ++ '\n' :: rest)) ∨
      ∃ blank ch tail, text = blank ++ ch :: tail ∧ (∀ b ∈ blank, spaceTab b = true) ∧
        whitespace ch = false ∧ ch ≠ '#' ∧ valueOf text rest = ch :: (tail ++ '\n' :: rest) := by
  have hsplit : text.takeWhile spaceTab ++ text.dropWhile spaceTab = text :=
    List.takeWhile_append_dropWhile
  have hblank : ∀ b ∈ text.takeWhile spaceTab, spaceTab b = true :=
    fun b hb => List.mem_takeWhile_imp hb
  have hshown := shown_blank_of_initial (text.dropWhile spaceTab) _ hblank
  rw [hsplit] at hshown
  cases hdrop : text.dropWhile spaceTab with
  | nil =>
    refine .inl ?_
    have hall : ∀ ch ∈ shown text, spaceTab ch = true := by
      rw [hshown, hdrop]
      exact fun ch hch => hblank ch (by simpa [shown] using hch)
    exact ⟨hall, valueOf_blank text rest hall⟩
  | cons ch tail =>
    have hspace : spaceTab ch = false := by
      have hhead := List.head_dropWhile_not spaceTab (w := by rw [hdrop]; exact List.cons_ne_nil _ _)
      simpa [hdrop] using hhead
    by_cases hstop : endline ch = true ∨ ch = '#'
    · refine .inl ?_
      have hall : ∀ ch ∈ shown text, spaceTab ch = true := by
        have hnil : shown (ch :: tail) = [] := by
          unfold shown
          rcases hstop with hend | rfl
          · rw [List.takeWhile_cons_of_neg (by rw [hend]; exact Bool.false_ne_true)]
            rfl
          · rfl
        rw [hshown, hdrop, hnil, List.append_nil]
        exact hblank
      exact ⟨hall, valueOf_blank text rest hall⟩
    · obtain ⟨hend, hhash⟩ := not_or.mp hstop
      have hwhite : whitespace ch = false := by
        rw [whitespace, hspace, Bool.eq_false_iff.mpr hend]
        rfl
      have hvalue := valueOf_visible rest _ ch tail hblank hwhite hhash
      rw [← hdrop, hsplit] at hvalue
      exact .inr ⟨_, ch, tail, by rw [← hdrop, hsplit], hblank, hwhite, hhash, hvalue⟩

omit key in
theorem endline_of_spaceTab (blank : Text) (hblank : ∀ b ∈ blank, spaceTab b = true) :
    ∀ ch ∈ blank, endline ch = false := by
  intro ch hch
  rcases of_decide_eq_true (hblank ch hch) with rfl | rfl <;> decide

/-- The rest of the line behind the first visible character of the text. -/
theorem dropWhile_visible (blank : Text) (ch : Char) (tail : Text)
    (hblank : ∀ b ∈ blank, spaceTab b = true) (hch : whitespace ch = false) :
    ((blank ++ ch :: tail ++ '\n' :: rest).dropWhile fun ch => !endline ch) =
      (tail ++ '\n' :: rest).dropWhile fun ch => !endline ch := by
  have hend : endline ch = false := (Bool.or_eq_false_iff.mp hch).2
  rw [List.append_assoc, dropWhile_endline (endline_of_spaceTab blank hblank)]
  exact List.dropWhile_cons_of_pos (by rw [hend]; rfl)

theorem valueOf_length :
    ((text ++ '\n' :: rest).dropWhile fun ch => !endline ch).length < (valueOf text rest).length ∧
      (valueOf text rest).tail ≠ [] := by
  rcases valueOf_cases text rest with ⟨-, hvalue⟩ | ⟨blank, ch, tail, rfl, hblank, hch, -, hvalue⟩
  · rw [hvalue]
    exact ⟨Nat.lt_succ_of_le (List.dropWhile_sublist _).length_le, by simp⟩
  · rw [hvalue, dropWhile_visible rest blank ch tail hblank hch]
    exact ⟨Nat.lt_succ_of_le (List.dropWhile_sublist _).length_le, by simp⟩

/-- `parseOption` at a line with a plain key: the value reaches to the end of the line or of the list. -/
theorem parseOption_lineOf (hkey : PlainKey key) (endl : Text)
    (hendl : endl = if (valueOf text rest).head? = some '[' then skipList 1 (valueOf text rest).tail
      else (text ++ '\n' :: rest).dropWhile fun ch => !endline ch) :
    parseOption (lineOf key text rest) = (endl, some (key,
      toText false ((valueOf text rest).take ((valueOf text rest).length - endl.length)))) := by
  have hname : (key ++ ' ' :: '=' :: (' ' :: shown text).rdropWhile whitespace).takeWhile (· ≠ '=') =
      key ++ [' '] := by
    rw [show key ++ ' ' :: '=' :: (' ' :: shown text).rdropWhile whitespace =
      key ++ [' '] ++ '=' :: (' ' :: shown text).rdropWhile whitespace by simp]
    refine (List.takeWhile_append_of_pos fun ch hch => decide_eq_true ?_).trans (by simp)
    rcases List.mem_append.mp hch with hmem | hmem
    · exact (hkey.marks ch hmem).2.1
    · rw [List.mem_singleton.mp hmem]
      decide
  have hend : toText false ((key ++ [' ']).rdropWhile spaceTab) = key := by
    rw [rdropWhile_append_all spaceTab key [' '] (by simp; decide), List.rdropWhile_eq_self_iff.mpr]
    · exact toText_eq key fun ch hch => (hkey.marks ch hch).1
    · intro hne
      rw [hkey.last _ (List.getLast?_eq_some_getLast hne)]
      exact Bool.false_ne_true
  have hval : (lineOf key text rest).drop ((key ++ [' ']).length + 1 +
      (((key ++ ' ' :: '=' :: (' ' :: shown text).rdropWhile whitespace).drop
        ((key ++ [' ']).length + 1)).takeWhile spaceTab).length) = valueOf text rest := by
    have hcut : ∀ more : Text, (key ++ ' ' :: '=' :: more).drop ((key ++ [' ']).length + 1) = more := by
      intro more
      rw [show key ++ ' ' :: '=' :: more = (key ++ [' ', '=']) ++ more by simp]
      exact List.drop_left' (by simp)
    rw [hcut, ← List.drop_drop, lineOf, hcut]
    rfl
  have hline : (lineOf key text rest).dropWhile (fun ch => !endline ch) =
      (text ++ '\n' :: rest).dropWhile fun ch => !endline ch := by
    rw [show lineOf key text rest = (key ++ [' ', '=', ' ']) ++ (text ++ '\n' :: rest) by simp [lineOf]]
    refine dropWhile_endline (fun ch hch => ?_) _
    rcases List.mem_append.mp hch with hmem | hmem
    · exact (hkey.marks ch hmem).2.2
    · exact (sign_marks ch hmem).2
  obtain ⟨hlength, htail⟩ := valueOf_length text rest
  unfold parseOption
  simp only [dropWhile_line text rest hkey, optionBody_line text rest hkey, hname, hend, hval, hline]
  rw [if_neg (by simp), if_neg hlength.ne', hendl]
  by_cases hlist : (valueOf text rest).head? = some '['
  · rw [if_pos hlist, if_pos hlist, if_neg fun h => htail h.2]
  · rw [if_neg hlist, if_neg hlist]

omit key in
theorem shown_sublist : (shown text).Sublist text :=
  (List.takeWhile_sublist _).trans (List.takeWhile_sublist _)

omit key in
theorem shown_eq_of_length (h : text.length ≤ (shown text).length) :
    (∀ ch ∈ text, endline ch = false) ∧ ∀ ch ∈ text, ch ≠ '#' := by
  have hinner : (text.takeWhile fun ch => !endline ch).length ≤ text.length :=
    (List.takeWhile_sublist _).length_le
  have houter : (shown text).length ≤ (text.takeWhile fun ch => !endline ch).length :=
    (List.takeWhile_sublist _).length_le
  have hline : (text.takeWhile fun ch => !endline ch) = text :=
    (List.takeWhile_sublist _).eq_of_length (by omega)
  have hshown : shown text = text := (shown_sublist text).eq_of_length (by omega)
  rw [shown, hline] at hshown
  exact ⟨fun ch hch => by simpa using List.takeWhile_eq_self_iff.mp hline ch hch,
    fun ch hch => by simpa using List.takeWhile_eq_self_iff.mp hshown ch hch⟩

omit key in
theorem shown_eq (hline : ∀ ch ∈ text, endline ch = false) (hhash : ∀ ch ∈ text, ch ≠ '#') :
    shown text = text := by
  have hwhole : (text.takeWhile fun ch => !endline ch) = text :=
    List.takeWhile_eq_self_iff.mpr fun ch hch => by rw [hline ch hch]; rfl
  rw [shown, hwhole]
  exact List.takeWhile_eq_self_iff.mpr fun ch hch => decide_eq_true (hhash ch hch)

/-- A value that is no list ends with the line. -/
theorem take_line (value : Text) :
    (value ++ '\n' :: rest).take ((value ++ '\n' :: rest).length -
      ((value ++ '\n' :: rest).dropWhile fun ch => !endline ch).length) =
        value.takeWhile fun ch => !endline ch := by
  have htake := take_append_sub ((value ++ '\n' :: rest).takeWhile fun ch => !endline ch)
    ((value ++ '\n' :: rest).dropWhile fun ch => !endline ch)
  rw [List.takeWhile_append_dropWhile] at htake
  rw [htake, takeWhile_line]

variable {text rest}

theorem parseOption_list (hkey : PlainKey key) {tail : Text} (hvalue : valueOf text rest = '[' :: tail) :
    parseOption (lineOf key text rest) = (skipList 1 tail, some (key,
      toText false (('[' :: tail).take (('[' :: tail).length - (skipList 1 tail).length)))) := by
  have hparse := parseOption_lineOf text rest hkey (skipList 1 tail) (by rw [hvalue]; rfl)
  rwa [hvalue] at hparse

theorem parseOption_word (hkey : PlainKey key) {ch : Char} {tail : Text}
    (hvalue : valueOf text rest = ch :: (tail ++ '\n' :: rest)) (hlist : ch ≠ '[')
    (hend : endline ch = false)
    (hdrop : ((text ++ '\n' :: rest).dropWhile fun ch => !endline ch) =
      (tail ++ '\n' :: rest).dropWhile fun ch => !endline ch) :
    parseOption (lineOf key text rest) = ((tail ++ '\n' :: rest).dropWhile fun ch => !endline ch,
      some (key, shown (ch :: tail))) := by
  have hparse := parseOption_lineOf text rest hkey _ rfl
  have hhead : ¬(ch :: (tail ++ '\n' :: rest)).head? = some '[' := by simpa using hlist
  rw [hvalue, if_neg hhead, hdrop] at hparse
  have htake := take_line rest (ch :: tail)
  have hskip : ((ch :: tail ++ '\n' :: rest).dropWhile fun ch => !endline ch) =
      (tail ++ '\n' :: rest).dropWhile fun ch => !endline ch :=
    List.dropWhile_cons_of_pos (by rw [hend]; rfl)
  rw [hskip] at htake
  have hline : toText false ((ch :: tail).takeWhile fun ch => !endline ch) = shown (ch :: tail) :=
    toText_line _ fun c hc => by simpa using List.mem_takeWhile_imp hc
  rw [hparse, ← hline, ← htake]
  rfl

/-- The reader gives a plain text back and goes on behind its line. -/
theorem parseOption_plain (hkey : PlainKey key) (htext : PlainText text) :
    ∃ endl, parseOption (lineOf key text rest) = (endl, some (key, text)) ∧ nextLine endl = rest := by
  obtain ⟨hhash, ch, tail, rfl, hch, hrest⟩ := htext
  have hvalue := valueOf_visible rest [] ch tail (by simp) hch (hhash ch List.mem_cons_self)
  rw [List.nil_append] at hvalue
  by_cases hlist : ch = '['
  · subst hlist
    rw [if_pos rfl] at hrest
    have hparse := parseOption_list hkey hvalue
    rw [skipList_closes 1 tail _ hrest, ← List.cons_append, take_append_sub, toText_eq _ hhash] at hparse
    exact ⟨_, hparse, rfl⟩
  · rw [if_neg hlist] at hrest
    have hend : endline ch = false := (Bool.or_eq_false_iff.mp hch).2
    have hdrop := dropWhile_visible rest [] ch tail (by simp) hch
    have hparse := parseOption_word hkey hvalue hlist hend hdrop
    rw [shown_eq _ (List.forall_mem_cons.mpr ⟨hend, hrest⟩) hhash, dropWhile_endline hrest] at hparse
    exact ⟨_, hparse, rfl⟩

/-- What is read of a list that does not close where the text ends is longer or shorter than the text. -/
theorem closes_of_value (tail : Text) (hhash : ∀ ch ∈ '[' :: tail, ch ≠ '#')
    (h : toText false (('[' :: (tail ++ '\n' :: rest)).take (('[' :: (tail ++ '\n' :: rest)).length -
      (skipList 1 (tail ++ '\n' :: rest)).length)) = '[' :: tail) : closes 1 tail = true := by
  by_contra hopen
  have hne := skipList_length_ne 1 tail rest (Bool.eq_false_iff.mpr hopen)
  generalize (skipList 1 (tail ++ '\n' :: rest)).length = left at h hne
  have hlength := congrArg List.length h
  rw [← List.cons_append, List.length_append, List.length_cons, List.length_cons] at hlength
  rcases Nat.lt_or_gt_of_ne hne with hbehind | hwithin
  · obtain ⟨more, hmore⟩ : ∃ more, tail.length + 1 + (rest.length + 1) - left =
        ('[' :: tail).length + (more + 1) :=
      ⟨rest.length - left, by rw [List.length_cons]; omega⟩
    rw [hmore, List.take_length_add_append, List.take_succ_cons, toText_append _ _ hhash,
      List.length_append, List.length_cons] at hlength
    rw [toText, if_neg Bool.false_ne_true, if_neg (by decide), List.length_cons] at hlength
    omega
  · have hle := toText_length_le false (('[' :: tail ++ '\n' :: rest).take
      (tail.length + 1 + (rest.length + 1) - left))
    rw [List.length_take] at hle
    omega

/-- What is read of a list starts with its bracket. -/
theorem blank_of_value (blank more tail : Text) (left : ℕ) (hleft : left ≤ more.length)
    (hblank : ∀ b ∈ blank, spaceTab b = true)
    (h : toText false (('[' :: more).take (('[' :: more).length - left)) = blank ++ '[' :: tail) :
    blank = [] := by
  rw [List.length_cons, Nat.sub_add_comm hleft, List.take_succ_cons, toText,
    if_neg Bool.false_ne_true, if_neg (by decide)] at h
  cases blank with
  | nil => rfl
  | cons b blank =>
    obtain ⟨rfl, -⟩ := List.cons.inj h
    exact absurd (hblank '[' List.mem_cons_self) (by decide)

/-- A text that comes back is plain. -/
theorem parseOption_value (hkey : PlainKey key) :
    ∃ endl value, parseOption (lineOf key text rest) = (endl, some (key, value)) ∧
      (value = text → PlainText text) := by
  rcases valueOf_cases text rest with ⟨hblank, hvalue⟩ | ⟨blank, ch, tail, rfl, hblank, hch, hhash, hvalue⟩
  · refine ⟨_, _, parseOption_word hkey hvalue (by decide) (by decide) rfl, fun hback => ?_⟩
    have hspace := shown_blank_of_initial text [' '] (List.forall_mem_singleton.mpr (by decide))
    have hall : ∀ ch ∈ text, spaceTab ch = true := by
      rw [← hback]
      exact List.forall_mem_cons.mpr ⟨by decide, hblank⟩
    have hsame : shown text = text := by
      refine shown_eq text (endline_of_spaceTab text hall) fun ch hch => ?_
      rcases of_decide_eq_true (hall ch hch) with rfl | rfl <;> decide
    have hlength := congrArg List.length hback
    rw [← List.singleton_append, hspace, hsame, List.length_append] at hlength
    exact absurd hlength (by simp)
  · by_cases hlist : ch = '['
    · subst hlist
      have hparse := parseOption_list hkey hvalue
      refine ⟨_, _, hparse, fun hback => ?_⟩
      obtain rfl := blank_of_value blank _ tail _ (skipList_length_le 1 _) hblank hback
      have hmarks : ∀ ch ∈ '[' :: tail, ch ≠ '#' := by
        rw [List.nil_append] at hback
        rw [← hback]
        exact toText_hash _ _
      exact ⟨hmarks, '[', tail, rfl, hch, by rw [if_pos rfl]; exact closes_of_value tail hmarks hback⟩
    · have hend : endline ch = false := (Bool.or_eq_false_iff.mp hch).2
      have hdrop := dropWhile_visible rest blank ch tail hblank hch
      refine ⟨_, _, parseOption_word hkey hvalue hlist hend hdrop, fun hback => ?_⟩
      have hle := (shown_sublist (ch :: tail)).length_le
      have hlength := congrArg List.length hback
      rw [List.length_append] at hlength
      obtain rfl : blank = [] := List.length_eq_zero_iff.mp (by omega)
      rw [List.length_nil, Nat.zero_add] at hlength
      obtain ⟨hline, hmarks⟩ := shown_eq_of_length (ch :: tail) hlength.ge
      refine ⟨hmarks, ch, tail, rfl, hch, ?_⟩
      rw [if_neg hlist]
      exact fun c hc => hline c (List.mem_cons_of_mem _ hc)

end Line

/-! ## A file of lines -/

def linesOf : List (Text × Text) → Text
  | [] => []
  | line :: lines => lineOf line.1 line.2 (linesOf lines)

theorem length_lineOf (key text rest : Text) : rest.length < (lineOf key text rest).length := by
  unfold lineOf
  simp only [List.length_append, List.length_cons]
  omega

theorem emplace_new (vars : List (Text × Text)) (var : Text × Text)
    (h : vars.lookup var.1 = none) : emplace vars var = vars ++ [var] := by
  rw [emplace, h]
  rfl

theorem parseLoop_line (fuel : ℕ) (key text rest : Text) (vars : List (Text × Text))
    (endl value : Text) (h : parseOption (lineOf key text rest) = (endl, some (key, value)))
    (hnew : vars.lookup key = none) :
    parseLoop (fuel + 1) (lineOf key text rest) vars =
      parseLoop fuel (nextLine endl) (vars ++ [(key, value)]) := by
  have hne : lineOf key text rest ≠ [] :=
    List.ne_nil_of_length_pos (Nat.zero_lt_of_lt (length_lineOf key text rest))
  rw [parseLoop, if_neg hne, h]
  exact congrArg (parseLoop fuel (nextLine endl)) (emplace_new vars (key, value) hnew)

/-- The keys still to be read are in no entry yet. -/
theorem lookup_new {vars : List (Text × Text)} {line : Text × Text} {lines : List (Text × Text)}
    {value : Text} (hnew : ∀ l ∈ line :: lines, vars.lookup l.1 = none)
    (hnodup : ((line :: lines).map Prod.fst).Nodup) :
    ∀ l ∈ lines, (vars ++ [(line.1, value)]).lookup l.1 = none := by
  intro l hl
  have hne : l.1 ≠ line.1 := by
    rintro heq
    rw [List.map_cons, List.nodup_cons] at hnodup
    exact hnodup.1 (heq ▸ List.mem_map_of_mem hl)
  rw [List.lookup_append, hnew l (List.mem_cons_of_mem _ hl), Option.none_or, List.lookup_cons,
    beq_false_of_ne hne, List.lookup_nil]

/-- Plain lines are read back as they are. -/
theorem parseLoop_plain (lines : List (Text × Text)) (fuel : ℕ) (vars : List (Text × Text))
    (hfuel : (linesOf lines).length ≤ fuel)
    (hplain : ∀ line ∈ lines, PlainKey line.1 ∧ PlainText line.2)
    (hnew : ∀ line ∈ lines, vars.lookup line.1 = none) (hnodup : (lines.map Prod.fst).Nodup) :
    parseLoop fuel (linesOf lines) vars = vars ++ lines := by
  induction lines generalizing fuel vars with
  | nil =>
    rw [parseLoop_fuel fuel _ vars hfuel, List.append_nil]
    rfl
  | cons line lines ih =>
    have hlength := length_lineOf line.1 line.2 (linesOf lines)
    rw [linesOf] at hfuel ⊢
    obtain ⟨fuel, rfl⟩ := Nat.exists_eq_succ_of_ne_zero (show fuel ≠ 0 by omega)
    obtain ⟨hkey, htext⟩ := hplain line List.mem_cons_self
    obtain ⟨endl, hparse, hnext⟩ :
        ∃ endl, parseOption (lineOf line.1 line.2 (linesOf lines)) = (endl, some (line.1, line.2)) ∧
          nextLine endl = linesOf lines := parseOption_plain hkey htext
    rw [parseLoop_line fuel _ _ _ vars endl line.2 hparse (hnew line List.mem_cons_self), hnext,
      ih fuel _ (by omega) (fun l hl => hplain l (List.mem_cons_of_mem _ hl))
        (lookup_new hnew hnodup) (List.nodup_cons.mp hnodup).2, List.append_assoc]
    rfl

/-- A line that is not plain is the last one that is read as it was written. -/
theorem plain_of_parseLoop (lines : List (Text × Text)) (fuel : ℕ) (vars : List (Text × Text))
    (hfuel : (linesOf lines).length ≤ fuel) (hkeys : ∀ line ∈ lines, PlainKey line.1)
    (hnew : ∀ line ∈ lines, vars.lookup line.1 = none) (hnodup : (lines.map Prod.fst).Nodup)
    (hback : ∀ line ∈ lines, (parseLoop fuel (linesOf lines) vars).lookup line.1 = some line.2) :
    ∀ line ∈ lines, PlainText line.2 := by
  induction lines generalizing fuel vars with
  | nil => nofun
  | cons line lines ih =>
    have hlength := length_lineOf line.1 line.2 (linesOf lines)
    rw [linesOf] at hfuel hback
    obtain ⟨fuel, rfl⟩ := Nat.exists_eq_succ_of_ne_zero (show fuel ≠ 0 by omega)
    have hkey := hkeys line List.mem_cons_self
    obtain ⟨endl, value, hparse, hvalue⟩ :
        ∃ endl value, parseOption (lineOf line.1 line.2 (linesOf lines)) = (endl, some (line.1, value)) ∧
          (value = line.2 → PlainText line.2) := parseOption_value hkey
    rw [parseLoop_line fuel _ _ _ vars endl value hparse (hnew line List.mem_cons_self)] at hback
    have hread : (vars ++ [(line.1, value)]).lookup line.1 = some value := by
      rw [List.lookup_append, hnew line List.mem_cons_self, Option.none_or, List.lookup_cons,
        beq_self_eq_true]
    have htext : PlainText line.2 := by
      have hfound := parseLoop_lookup fuel (nextLine endl) _ _ _ hread
      rw [hback line List.mem_cons_self] at hfound
      exact hvalue (Option.some.inj hfound).symm
    obtain ⟨endl', hparse', hnext⟩ :
        ∃ endl', parseOption (lineOf line.1 line.2 (linesOf lines)) = (endl', some (line.1, line.2)) ∧
          nextLine endl' = linesOf lines := parseOption_plain hkey htext
    rw [hparse] at hparse'
    obtain ⟨rfl, hsame⟩ := Prod.mk.inj hparse'
    rw [hnext] at hback
    refine List.forall_mem_cons.mpr ⟨htext, ?_⟩
    exact ih fuel _ (by omega) (fun l hl => hkeys l (List.mem_cons_of_mem _ hl))
      (lookup_new hnew hnodup) (List.nodup_cons.mp hnodup).2
      fun l hl => hback l (List.mem_cons_of_mem _ hl)

end Sunshine.Config
