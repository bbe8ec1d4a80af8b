import Mathlib.Data.List.DropRight
import Sunshine.Lib.Texts

/-! `config::parse_config`: the reader of `key = value` files, with comments, blank trimming and bracket
lists that span lines.

An iterator of the source is the text from it to the end of the file. Every key the reader makes is plain,
and the length of the file is fuel enough for its loop. -/
namespace Sunshine.Config
open Trimming
set_option autoImplicit false

abbrev Text := List Char

/-! ## The reader -/

def endline (ch : Char) : Bool := ch = '\r' ∨ ch = '\n'

def spaceTab (ch : Char) : Bool := ch = ' ' ∨ ch = '\t'

def whitespace (ch : Char) : Bool := spaceTab ch || endline ch

/-- `to_string`: the text without its comments; `inComment` is past a `'#'` of the line. -/
def toText (inComment : Bool) : Text → Text
  | [] => []
  | ch :: rest =>
    if inComment then
      if endline ch then ch :: toText false rest else toText true rest
    else if ch = '#' then toText true rest
    else ch :: toText false rest

/-- What is left behind the bracket that closes the `stack`-th open one. -/
def skipList : ℕ → Text → Text
  | 0, skipper => skipper
  | _ + 1, [] => []
  | stack + 1, ch :: skipper =>
    skipList (if ch = '[' then stack + 2 else if ch = ']' then stack else stack + 1) skipper

/-- From `begin` to `endc`: the line without its comment and the blanks in front of it. -/
def optionBody (line : Text) : Text :=
  ((line.takeWhile fun ch => !endline ch).takeWhile (· ≠ '#')).rdropWhile whitespace

def parseOption (pos : Text) : Text × Option (Text × Text) :=
  let line := pos.dropWhile whitespace
  let endl := line.dropWhile fun ch => !endline ch
  let body := optionBody line
  let name := body.takeWhile (· ≠ '=')
  if name = body ∨ name = [] then (endl, none)
  else
    let beginVal := line.drop (name.length + 1 +
      ((body.drop (name.length + 1)).takeWhile spaceTab).length)
    let endName := toText false (name.rdropWhile spaceTab)
    if beginVal.length = endl.length then (endl, none)
    else if beginVal.head? = some '[' then
      let endl := skipList 1 beginVal.tail
      if endl = [] ∧ beginVal.tail = [] then (endl, none)
      else (endl, some (endName, toText false (beginVal.take (beginVal.length - endl.length))))
    else (endl, some (endName, toText false (beginVal.take (beginVal.length - endl.length))))

/-- Past the end of the line; `"\r\n"` is taken as one. -/
def nextLine : Text → Text
  | [] => []
  | ch :: rest => if ch = '\r' then rest.drop 1 else rest

def emplace (vars : List (Text × Text)) (var : Text × Text) : List (Text × Text) :=
  if (vars.lookup var.1).isSome then vars else vars ++ [var]

/-- The loop of `parse_config`; every pass leaves a shorter text. -/
def parseLoop : ℕ → Text → List (Text × Text) → List (Text × Text)
  | 0, _, vars => vars
  | fuel + 1, pos, vars =>
    if pos = [] then vars
    else
      let option := parseOption pos
      parseLoop fuel (nextLine option.1) (option.2.elim vars (emplace vars))

def parseConfig (fileContent : Text) : List (Text × Text) :=
  parseLoop fileContent.length fileContent []

example : parseConfig "a = 1 # one\n\nb=[x,\n y]\na = 2".toList =
    [("a".toList, "1 ".toList), ("b".toList, "[x,\n y]".toList)] := by decide

/-- A key the reader gives back: one word or several, without a mark of the format. -/
structure PlainKey (key : Text) : Prop where
  nonempty : key ≠ []
  marks : ∀ ch ∈ key, ch ≠ '#' ∧ ch ≠ '=' ∧ endline ch = false
  head : ∀ ch ∈ key.head?, spaceTab ch = false
  last : ∀ ch ∈ key.getLast?, spaceTab ch = false

/-- The brackets open at depth `stack` close with the last character. -/
def closes : ℕ → Text → Bool
  | 0, text => text.isEmpty
  | _ + 1, [] => false
  | stack + 1, ch :: text =>
    closes (if ch = '[' then stack + 2 else if ch = ']' then stack else stack + 1) text

/-- A text the reader gives back: one line behind its first character, or one closed list. -/
def PlainText (text : Text) : Prop :=
  (∀ ch ∈ text, ch ≠ '#') ∧ ∃ ch rest, text = ch :: rest ∧ whitespace ch = false ∧
    if ch = '[' then closes 1 rest = true else ∀ ch ∈ rest, endline ch = false

/-! ## Comments -/

theorem toText_cons (inComment : Bool) (ch : Char) (rest : Text) :
    toText inComment (ch :: rest) =
      if inComment then
        if endline ch then ch :: toText false rest else toText true rest
      else if ch = '#' then toText true rest
      else ch :: toText false rest := rfl

theorem toText_hash (inComment : Bool) (text : Text) : ∀ ch ∈ toText inComment text, ch ≠ '#' := by
  induction text generalizing inComment with
  | nil => nofun
  | cons c rest ih =>
    intro ch hch
    rw [toText_cons] at hch
    split_ifs at hch with hin hend hhash
    · rcases List.mem_cons.mp hch with rfl | hmem
      · rintro rfl
        exact absurd hend (by decide)
      · exact ih false ch hmem
    · exact ih true ch hch
    · exact ih true ch hch
    · rcases List.mem_cons.mp hch with rfl | hmem
      · exact hhash
      · exact ih false ch hmem

theorem toText_append (text rest : Text) (h : ∀ ch ∈ text, ch ≠ '#') :
    toText false (text ++ rest) = text ++ toText false rest := by
  induction text with
  | nil => rfl
  | cons ch text ih =>
    obtain ⟨hch, htext⟩ := List.forall_mem_cons.mp h
    rw [List.cons_append, toText_cons, if_neg Bool.false_ne_true, if_neg hch, ih htext, List.cons_append]

theorem toText_eq (text : Text) (h : ∀ ch ∈ text, ch ≠ '#') : toText false text = text := by
  have hnil := toText_append text [] h
  rwa [List.append_nil, show toText false [] = [] from rfl, List.append_nil] at hnil

theorem toText_comment (text : Text) (h : ∀ ch ∈ text, endline ch = false) :
    toText true text = [] := by
  induction text with
  | nil => rfl
  | cons ch text ih =>
    obtain ⟨hch, htext⟩ := List.forall_mem_cons.mp h
    rw [toText_cons, if_pos rfl, if_neg (by rw [hch]; exact Bool.false_ne_true), ih htext]

theorem toText_line (text : Text) (h : ∀ ch ∈ text, endline ch = false) :
    toText false text = text.takeWhile (· ≠ '#') := by
  induction text with
  | nil => rfl
  | cons ch text ih =>
    obtain ⟨-, htext⟩ := List.forall_mem_cons.mp h
    rw [toText_cons, if_neg Bool.false_ne_true]
    by_cases hhash : ch = '#'
    · rw [if_pos hhash, toText_comment text htext, hhash]
      rfl
    · rw [if_neg hhash, ih htext, List.takeWhile_cons_of_pos (by simpa using hhash)]

theorem toText_length_le (inComment : Bool) (text : Text) :
    (toText inComment text).length ≤ text.length := by
  induction text generalizing inComment with
  | nil => exact Nat.le_refl _
  | cons ch text ih =>
    have htrue := ih true
    have hfalse := ih false
    rw [toText_cons]
    split_ifs <;> simp only [List.length_cons] <;> omega

theorem toText_sublist (inComment : Bool) (text : Text) : (toText inComment text).Sublist text := by
  induction text generalizing inComment with
  | nil => exact List.Sublist.refl _
  | cons ch text ih =>
    rw [toText_cons]
    split_ifs
    · exact (ih false).cons_cons ch
    · exact (ih true).cons ch
    · exact (ih true).cons ch
    · exact (ih false).cons_cons ch

/-! ## Lists -/

theorem skipList_zero (skipper : Text) : skipList 0 skipper = skipper := by
  cases skipper <;> rfl

theorem skipList_cons (stack : ℕ) (ch : Char) (skipper : Text) :
    skipList (stack + 1) (ch :: skipper) =
      skipList (if ch = '[' then stack + 2 else if ch = ']' then stack else stack + 1) skipper := rfl

theorem closes_cons (stack : ℕ) (ch : Char) (text : Text) :
    closes (stack + 1) (ch :: text) =
      closes (if ch = '[' then stack + 2 else if ch = ']' then stack else stack + 1) text := rfl

theorem skipList_sublist (stack : ℕ) (text : Text) : (skipList stack text).Sublist text := by
  induction text generalizing stack with
  | nil => cases stack <;> exact List.Sublist.refl _
  | cons ch text ih =>
    cases stack with
    | zero => exact List.Sublist.refl _
    | succ stack =>
      rw [skipList_cons]
      exact (ih _).cons ch

theorem skipList_length_le (stack : ℕ) (text : Text) : (skipList stack text).length ≤ text.length := by
  induction text generalizing stack with
  | nil => cases stack <;> exact Nat.le_refl _
  | cons ch text ih =>
    cases stack with
    | zero => exact Nat.le_refl _
    | succ stack =>
      rw [skipList_cons]
      exact Nat.le_succ_of_le (ih _)

theorem skipList_closes (stack : ℕ) (text rest : Text) (h : closes stack text = true) :
    skipList stack (text ++ rest) = rest := by
  induction text generalizing stack with
  | nil =>
    cases stack with
    | zero => rw [List.nil_append, skipList_zero]
    | succ stack => cases h
  | cons ch text ih =>
    cases stack with
    | zero => cases h
    | succ stack =>
      rw [closes_cons] at h
      rw [List.cons_append, skipList_cons]
      exact ih _ h

/-- A list that does not close where the text ends leaves another rest than the one behind it. -/
theorem skipList_length_ne (stack : ℕ) (text rest : Text) (h : closes stack text = false) :
    (skipList stack (text ++ '\n' :: rest)).length ≠ rest.length + 1 := by
  induction text generalizing stack with
  | nil =>
    cases stack with
    | zero => cases h
    | succ stack =>
      have hle := skipList_length_le (stack + 1) rest
      rw [List.nil_append, skipList_cons, if_neg (by decide), if_neg (by decide)]
      omega
  | cons ch text ih =>
    cases stack with
    | zero =>
      rw [skipList_zero, List.cons_append, List.length_cons, List.length_append, List.length_cons]
      omega
    | succ stack =>
      rw [closes_cons] at h
      rw [List.cons_append, skipList_cons]
      exact ih _ h

/-! ## Keys -/

theorem optionBody_marks (line : Text) : ∀ ch ∈ optionBody line, ch ≠ '#' ∧ endline ch = false := by
  intro ch hch
  have hcut := (List.rdropWhile_prefix whitespace _).subset hch
  refine ⟨by simpa using List.mem_takeWhile_imp hcut, ?_⟩
  have hline := (List.takeWhile_sublist _).subset hcut
  simpa using List.mem_takeWhile_imp hline

theorem optionBody_initial (line : Text) : optionBody line <+: line :=
  (List.rdropWhile_prefix _ _).trans ((List.takeWhile_prefix _).trans (List.takeWhile_prefix _))

/-- A name as the reader cuts it out of a line. -/
theorem plainKey_of_name (line : Text) (hline : ∀ ch ∈ line.head?, whitespace ch = false)
    (hname : (optionBody line).takeWhile (· ≠ '=') ≠ []) :
    PlainKey (toText false (((optionBody line).takeWhile (· ≠ '=')).rdropWhile spaceTab)) := by
  set name := (optionBody line).takeWhile (· ≠ '=') with hdef
  have hmem : ∀ ch ∈ name.rdropWhile spaceTab, ch ≠ '#' ∧ ch ≠ '=' ∧ endline ch = false := by
    intro ch hch
    have hin : ch ∈ name := (List.rdropWhile_prefix _ _).subset hch
    have hbody := optionBody_marks line ch ((List.takeWhile_sublist _).subset hin)
    exact ⟨hbody.1, by simpa using List.mem_takeWhile_imp hin, hbody.2⟩
  rw [toText_eq _ fun ch hch => (hmem ch hch).1]
  obtain ⟨first, more, hcons⟩ := List.exists_cons_of_ne_nil hname
  have hfirst : spaceTab first = false := by
    obtain ⟨behind, hpre⟩ := (List.takeWhile_prefix (p := (· ≠ '='))).trans (optionBody_initial line)
    rw [← hdef, hcons] at hpre
    rw [← hpre] at hline
    exact (Bool.or_eq_false_iff.mp (hline first rfl)).1
  have hnonempty : name.rdropWhile spaceTab ≠ [] := by
    rw [hcons, rdropWhile_cons _ _ _ hfirst]
    exact List.cons_ne_nil _ _
  refine ⟨hnonempty, hmem, fun ch hch => ?_, fun ch hch => ?_⟩
  · rw [hcons, rdropWhile_cons _ _ _ hfirst] at hch
    obtain rfl := Option.some.inj hch
    exact hfirst
  · rw [List.getLast?_eq_some_getLast hnonempty] at hch
    obtain rfl := Option.some.inj hch
    exact Bool.eq_false_iff.mpr (List.rdropWhile_last_not spaceTab name hnonempty)

/-- Whatever the file, the reader makes plain keys only. -/
theorem parseOption_plainKey (pos : Text) (var : Text × Text) (h : (parseOption pos).2 = some var) :
    PlainKey var.1 := by
  have hhead : ∀ ch ∈ (pos.dropWhile whitespace).head?, whitespace ch = false := by
    intro ch hch
    have hnot := List.head?_dropWhile_not whitespace pos
    rw [hch] at hnot
    simpa using hnot
  unfold parseOption at h
  simp only at h
  by_cases hname : (optionBody (pos.dropWhile whitespace)).takeWhile (· ≠ '=') =
      optionBody (pos.dropWhile whitespace) ∨
      (optionBody (pos.dropWhile whitespace)).takeWhile (· ≠ '=') = []
  · rw [if_pos hname] at h
    cases h
  · rw [if_neg hname] at h
    have hkey := plainKey_of_name _ hhead fun hnil => hname (.inr hnil)
    split_ifs at h <;> obtain rfl := Option.some.inj h <;> exact hkey

/-! ## The loop -/

theorem parseOption_length_le (pos : Text) : (parseOption pos).1.length ≤ pos.length := by
  have hline : (pos.dropWhile whitespace).length ≤ pos.length := (List.dropWhile_sublist _).length_le
  have hend : ((pos.dropWhile whitespace).dropWhile fun ch => !endline ch).length ≤
      (pos.dropWhile whitespace).length := (List.dropWhile_sublist _).length_le
  have hlist : ∀ n, (skipList 1 ((pos.dropWhile whitespace).drop n).tail).length ≤
      (pos.dropWhile whitespace).length := by
    intro n
    refine (skipList_length_le 1 _).trans ?_
    rw [List.length_tail, List.length_drop]
    omega
  unfold parseOption
  simp only
  split_ifs
  · exact hend.trans hline
  · exact hend.trans hline
  · exact (hlist _).trans hline
  · exact (hlist _).trans hline
  · exact hend.trans hline

theorem nextLine_length (endl : Text) : (nextLine endl).length ≤ endl.length - 1 := by
  cases endl with
  | nil => exact Nat.le_refl _
  | cons ch rest =>
    rw [nextLine]
    split_ifs <;> simp only [List.length_drop, List.length_cons] <;> omega

/-- Every pass leaves a shorter text. -/
theorem nextPass_lt {pos : Text} (h : pos ≠ []) : (nextLine (parseOption pos).1).length < pos.length := by
  have hoption := parseOption_length_le pos
  have hline := nextLine_length (parseOption pos).1
  have hpos := List.length_pos_iff.mpr h
  omega

/-- The length of the file is fuel enough for all passes. -/
theorem parseLoop_fuel (fuel : ℕ) (pos : Text) (vars : List (Text × Text)) (h : pos.length ≤ fuel) :
    parseLoop fuel pos vars = parseLoop pos.length pos vars := by
  induction fuel using Nat.strong_induction_on generalizing pos vars with
  | _ fuel ih =>
    cases fuel with
    | zero => rw [Nat.le_zero.mp h]
    | succ fuel =>
      cases hpos : pos with
      | nil => rfl
      | cons ch rest =>
        have hnext := nextPass_lt (List.cons_ne_nil ch rest)
        rw [hpos, List.length_cons] at h
        rw [List.length_cons] at hnext ⊢
        rw [parseLoop, if_neg (List.cons_ne_nil _ _), parseLoop,
          if_neg (List.cons_ne_nil _ _), ih fuel (Nat.lt_succ_self _) _ _ (by omega),
          ih rest.length (by omega) _ _ (by omega)]

theorem emplace_lookup (vars : List (Text × Text)) (var : Text × Text) (key value : Text)
    (h : vars.lookup key = some value) : (emplace vars var).lookup key = some value := by
  unfold emplace
  split_ifs
  · exact h
  · rw [List.lookup_append, h, Option.some_or]

/-- What is in the map stays there. -/
theorem parseLoop_lookup (fuel : ℕ) (pos : Text) (vars : List (Text × Text)) (key value : Text)
    (h : vars.lookup key = some value) : (parseLoop fuel pos vars).lookup key = some value := by
  induction fuel generalizing pos vars with
  | zero => exact h
  | succ fuel ih =>
    rw [parseLoop]
    split_ifs
    · exact h
    · refine ih _ _ ?_
      cases (parseOption pos).2 with
      | none => exact h
      | some var => exact emplace_lookup vars var key value h

/-- What a pass leaves and the text it reads are parts of what is there. -/
theorem parseOption_sublist (pos : Text) :
    (parseOption pos).1.Sublist pos ∧ ∀ var, (parseOption pos).2 = some var → var.2.Sublist pos := by
  have line : (pos.dropWhile whitespace).Sublist pos := List.dropWhile_sublist _
  have endl := (List.dropWhile_sublist (fun ch => !endline ch) (l := pos.dropWhile whitespace)).trans line
  have list (n : ℕ) : (skipList 1 ((pos.dropWhile whitespace).drop n).tail).Sublist pos :=
    (skipList_sublist 1 _).trans ((List.tail_sublist _).trans ((List.drop_sublist n _).trans line))
  have value (n m : ℕ) : (toText false (((pos.dropWhile whitespace).drop n).take m)).Sublist pos :=
    (toText_sublist false _).trans ((List.take_sublist m _).trans ((List.drop_sublist n _).trans line))
  rw [parseOption]
  simp only
  split_ifs
  · exact ⟨endl, nofun⟩
  · exact ⟨endl, nofun⟩
  · exact ⟨list _, nofun⟩
  · exact ⟨list _, fun var same => Option.some.inj same ▸ value _ _⟩
  · exact ⟨endl, fun var same => Option.some.inj same ▸ value _ _⟩

theorem nextLine_sublist (endl : Text) : (nextLine endl).Sublist endl.tail := by
  cases endl with
  | nil => exact List.Sublist.refl _
  | cons ch rest =>
    rw [nextLine]
    split_ifs
    · exact List.drop_sublist 1 rest
    · exact List.Sublist.refl _

theorem mem_emplace (vars : List (Text × Text)) (var other : Text × Text) (mem : other ∈ emplace vars var) :
    other ∈ vars ∨ other = var := by
  rw [emplace] at mem
  split_ifs at mem
  · exact Or.inl mem
  · simpa using mem

/-- Every text in the map was there before or is a part of what was read. -/
theorem parseLoop_sublist (fuel : ℕ) (pos : Text) (vars : List (Text × Text)) (var : Text × Text)
    (mem : var ∈ parseLoop fuel pos vars) : var ∈ vars ∨ var.2.Sublist pos := by
  induction fuel generalizing pos vars with
  | zero => exact Or.inl mem
  | succ fuel ih =>
    rw [parseLoop] at mem
    split_ifs at mem
    · exact Or.inl mem
    · have part := parseOption_sublist pos
      rcases ih _ _ mem with before | later
      · cases option : (parseOption pos).2 with
        | none =>
          rw [option] at before
          exact Or.inl before
        | some read =>
          rw [option] at before
          rcases mem_emplace vars read var before with old | rfl
          · exact Or.inl old
          · exact Or.inr (part.2 var option)
      · exact Or.inr (later.trans ((nextLine_sublist _).trans ((List.tail_sublist _).trans part.1)))

theorem parseLoop_plainKey (fuel : ℕ) (pos : Text) (vars : List (Text × Text))
    (h : ∀ var ∈ vars, PlainKey var.1) : ∀ var ∈ parseLoop fuel pos vars, PlainKey var.1 := by
  induction fuel generalizing pos vars with
  | zero => exact h
  | succ fuel ih =>
    rw [parseLoop]
    split_ifs
    · exact h
    · refine ih _ _ ?_
      cases hoption : (parseOption pos).2 with
      | none => exact h
      | some var =>
        rw [Option.elim_some]
        unfold emplace
        split_ifs
        · exact h
        · exact List.forall_mem_append.mpr
            ⟨h, List.forall_mem_singleton.mpr (parseOption_plainKey pos var hoption)⟩

end Sunshine.Config
