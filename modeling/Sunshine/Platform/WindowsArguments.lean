import Sunshine.Lib.CommandLine
import Sunshine.Lib.FirstMatch
import Mathlib.Data.List.Infix
import Mathlib.Algebra.Order.Ring.Nat

/-! The quoting of arguments for `CreateProcess` and for cmd (`escape_argument`, `escape_argument_for_cmd`).
`arguments_read_back_iff` says which arguments come back from a command line that is joined of them. -/
namespace Sunshine.Arguments
open CommandLine FirstMatch
set_option autoImplicit false

/-- A `std::wstring` of 16-bit units. -/
abbrev WText := List UInt16

def wchar (c : Char) : UInt16 := UInt16.ofNat c.toNat

def quote : UInt16 := wchar '"'
def backslash : UInt16 := wchar '\\'
def caret : UInt16 := wchar '^'

def quotingChars : WText := [' ', '\t', '\n', '\x0b', '"'].map wchar
def cmdMetachars : WText := ['(', ')', '%', '!', '^', '"', '<', '>', '&', '|'].map wchar

/-- `find_first_of` from a position on. -/
def findFirstOf (chars text : WText) (pos : ℕ) : Option ℕ := ((text.drop pos).findIdx? (· ∈ chars)).map (pos + ·)

/-- The loop of `escape_argument` with `backslash_count`, an `unsigned int`. -/
def escapeFrom (backslashCount : ℕ) : WText → WText
  | [] => List.replicate (backslashCount * 2 % 2 ^ 32) backslash
  | c :: rest =>
    if c = backslash then escapeFrom ((backslashCount + 1) % 2 ^ 32) rest
    else if c = quote then
      List.replicate ((backslashCount * 2 + 1) % 2 ^ 32) backslash ++ c :: escapeFrom 0 rest
    else List.replicate backslashCount backslash ++ c :: escapeFrom 0 rest

def escapeArgument (argument : WText) : WText :=
  if findFirstOf quotingChars argument 0 = none then argument
  else quote :: (escapeFrom 0 argument ++ [quote])

/-- The loop of `escape_argument_for_cmd`, for at most `fuel` turns. -/
def escapeForCmdLoop : ℕ → WText → ℕ → Option WText
  | 0, _, _ => none
  | fuel + 1, escapedArg, matchPos =>
    match findFirstOf cmdMetachars escapedArg matchPos with
    | none => some escapedArg
    | some found => escapeForCmdLoop fuel (escapedArg.take found ++ caret :: escapedArg.drop found) (found + 2)

def escapeArgumentForCmd (fuel : ℕ) (argument : WText) : Option WText := escapeForCmdLoop fuel argument 0

/-- Arguments with a space between them. -/
def joinArguments (arguments : List WText) : WText := [wchar ' '].intercalate arguments

/-- How the C runtime and `CommandLineToArgvW` read a command line. -/
def microsoft : Marks UInt16 where
  quote := quote
  backslash := backslash
  blank c := c = wchar ' ' ∨ c = wchar '\t'
  quote_ne := by decide
  blank_quote := by decide
  blank_backslash := by decide

/-! ## What is read back of a quoted argument -/

/-- The argument that is read back. -/
def carried (backslashCount : ℕ) : WText → WText
  | [] => List.replicate (backslashCount % 2 ^ 31) backslash
  | c :: rest =>
    if c = backslash then carried ((backslashCount + 1) % 2 ^ 32) rest
    else if c = quote then List.replicate (backslashCount % 2 ^ 31) backslash ++ c :: carried 0 rest
    else List.replicate backslashCount backslash ++ c :: carried 0 rest

/-- Fewer than 2 ^ 31 backslashes stand in front of each quotation mark and of the end, and fewer than 2 ^ 32 elsewhere,
with `n` of them in front of the text. -/
def RunsFit (n : ℕ) : WText → Prop
  | [] => n < 2 ^ 31
  | c :: rest =>
    if c = backslash then RunsFit (n + 1) rest
    else n < (if c = quote then 2 ^ 31 else 2 ^ 32) ∧ RunsFit 0 rest

theorem readFrom_escapeFrom (argument : WText) (n : ℕ) (arg rest : WText) :
    readFrom microsoft .quoted 0 arg (escapeFrom n argument ++ quote :: rest) =
      readFrom microsoft .closed 0 (arg ++ carried n argument) rest := by
  induction argument generalizing n arg with
  | nil =>
    rw [escapeFrom, carried, show n * 2 % 2 ^ 32 = 2 * (n % 2 ^ 31) by omega]
    exact @readFrom_closing UInt16 _ microsoft _ arg rest
  | cons c argument ih =>
    rw [escapeFrom, carried]
    by_cases hbackslash : c = backslash
    · rw [if_pos hbackslash, if_pos hbackslash, ih]
    · rw [if_neg hbackslash, if_neg hbackslash]
      by_cases hquote : c = quote
      · rw [if_pos hquote, if_pos hquote, hquote, show (n * 2 + 1) % 2 ^ 32 = 2 * (n % 2 ^ 31) + 1 by omega,
          List.append_assoc, List.cons_append]
        refine (@readFrom_escaped UInt16 _ microsoft _ arg _).trans ?_
        rw [ih]
        simp [microsoft]
      · rw [if_neg hquote, if_neg hquote, List.append_assoc, List.cons_append]
        refine (@readFrom_ordinary UInt16 _ microsoft _ hbackslash hquote _ arg _).trans ?_
        rw [ih]
        simp [microsoft]

theorem replicate_backslash_inj {a b : ℕ} {c : UInt16} {x y : WText} (hc : c ≠ backslash) :
    List.replicate a backslash ++ c :: x = List.replicate b backslash ++ c :: y ↔ a = b ∧ x = y := by
  induction a generalizing b with
  | zero =>
    cases b with
    | zero => simp
    | succ b => simp [List.replicate_succ, hc]
  | succ a ih =>
    cases b with
    | zero => simp [List.replicate_succ, Ne.symm hc]
    | succ b => simp [List.replicate_succ, ih]

/-- The argument comes back exactly if its backslashes can be counted. -/
theorem carried_eq_iff (argument : WText) (n : ℕ) :
    carried (n % 2 ^ 32) argument = List.replicate n backslash ++ argument ↔ RunsFit n argument := by
  induction argument generalizing n with
  | nil =>
    rw [carried, RunsFit, List.append_nil, List.replicate_left_inj]
    omega
  | cons c argument ih =>
    rw [carried, RunsFit]
    by_cases hbackslash : c = backslash
    · rw [if_pos hbackslash, if_pos hbackslash, ← ih, hbackslash, show (n % 2 ^ 32 + 1) % 2 ^ 32 = (n + 1) % 2 ^ 32 by omega,
        List.replicate_succ', List.append_assoc, List.singleton_append]
    · have hzero := ih 0
      rw [Nat.zero_mod, List.replicate_zero, List.nil_append] at hzero
      rw [if_neg hbackslash, if_neg hbackslash, ← hzero]
      by_cases hquote : c = quote
      · rw [if_pos hquote, if_pos hquote, replicate_backslash_inj hbackslash]
        exact and_congr_left fun _ => by omega
      · rw [if_neg hquote, if_neg hquote, replicate_backslash_inj hbackslash]
        exact and_congr_left fun _ => by omega

/-! ## Command lines -/

theorem findFirstOf_start_eq_none {chars text : WText} : findFirstOf chars text 0 = none ↔ ∀ c ∈ text, c ∉ chars := by
  simp [findFirstOf]

/-- What is read back of an argument. -/
def readBack (argument : WText) : List WText :=
  if findFirstOf quotingChars argument 0 = none then if argument = [] then [] else [argument]
  else [carried 0 argument]

theorem reads_escapeArgument (argument : WText) : Reads microsoft (escapeArgument argument) (readBack argument) := by
  unfold escapeArgument readBack
  split_ifs with hplain hempty
  · rw [hempty]
    exact reads_nil
  · refine reads_plain (fun c hc => ?_) hempty
    have hchar := findFirstOf_start_eq_none.mp hplain c hc
    constructor
    · rintro rfl
      exact hchar (by decide)
    · refine decide_eq_false fun hblank => hchar ?_
      rcases hblank with rfl | rfl
      · decide
      · decide
  · exact @reads_quoted UInt16 _ microsoft _ _ fun rest => readFrom_escapeFrom argument 0 [] rest

/-- An argument that is not empty and whose backslashes can be counted where it is quoted. -/
def Quotable (argument : WText) : Prop :=
  argument ≠ [] ∧ (findFirstOf quotingChars argument 0 ≠ none → RunsFit 0 argument)

theorem readBack_eq_iff (argument : WText) : readBack argument = [argument] ↔ Quotable argument := by
  have hcarried := carried_eq_iff argument 0
  rw [Nat.zero_mod, List.replicate_zero, List.nil_append] at hcarried
  unfold readBack Quotable
  split_ifs with hplain hempty
  · simp [hempty]
  · simp [hempty, hplain]
  · have hne : argument ≠ [] := by
      rintro rfl
      exact hplain rfl
    simp [hcarried, hplain, hne]

theorem split_joinArguments (arguments : List WText) :
    split microsoft (joinArguments (arguments.map escapeArgument)) = arguments.flatMap readBack :=
  split_intercalate (by decide) arguments fun a _ => reads_escapeArgument a

theorem length_readBack (argument : WText) : (readBack argument).length ≤ 1 := by
  unfold readBack
  split_ifs
  · exact Nat.zero_le 1
  · exact Nat.le_refl 1
  · exact Nat.le_refl 1

/-! ## cmd -/

def isMeta (c : UInt16) : Bool := c ∈ cmdMetachars

theorem findFirstOf_behind (done rest : WText) :
    findFirstOf cmdMetachars (done ++ rest) done.length = (rest.findIdx? isMeta).map (done.length + ·) := by
  rw [findFirstOf, List.drop_left]
  rfl

/-- What is in front of the position is escaped already. -/
theorem escapeForCmdLoop_eq (fuel : ℕ) (done rest : WText) (hfuel : rest.length < fuel) :
    escapeForCmdLoop fuel (done ++ rest) done.length = some (done ++ caretEscape caret isMeta rest) := by
  induction fuel generalizing done rest with
  | zero => exact absurd hfuel (Nat.not_lt_zero _)
  | succ fuel ih =>
    rw [escapeForCmdLoop, findFirstOf_behind]
    cases hfound : rest.findIdx? isMeta with
    | none =>
      have hplain : ∀ c ∈ rest, isMeta c = false := by simpa using hfound
      simp [caretEscape_plain hplain]
    | some found =>
      obtain ⟨front, c, back, rfl, rfl, hfront, hc⟩ := split_of_findIdx? hfound
      have hback : back.length < fuel := by
        rw [List.length_append, List.length_cons] at hfuel
        omega
      have hturn := ih (done ++ front ++ [caret, c]) back hback
      have hinsert : (done ++ (front ++ c :: back)).take (done.length + front.length) ++
          caret :: (done ++ (front ++ c :: back)).drop (done.length + front.length) =
            done ++ front ++ [caret, c] ++ back := by
        rw [← List.append_assoc, ← List.length_append, List.take_left, List.drop_left]
        simp
      have hpos : done.length + front.length + 2 = (done ++ front ++ [caret, c]).length := by
        rw [List.length_append, List.length_append]
        rfl
      rw [Option.map_some]
      simp only [hinsert, hpos, hturn]
      rw [caretEscape_append hfront hc]
      simp

theorem escapeArgumentForCmd_eq {fuel : ℕ} (argument : WText) (hfuel : argument.length < fuel) :
    escapeArgumentForCmd fuel argument = some (caretEscape caret isMeta argument) :=
  escapeForCmdLoop_eq fuel [] argument hfuel

/-- A command line gives its arguments back exactly if none is empty and the backslashes of the quoted ones can be
counted. What is escaped for cmd comes back from every text. -/
theorem arguments_read_back_iff (arguments : List WText) :
    (split microsoft (joinArguments (arguments.map escapeArgument)) = arguments ↔ ∀ a ∈ arguments, Quotable a) ∧
      ∀ text, ∃ escaped, (∀ fuel, text.length < fuel → escapeArgumentForCmd fuel text = some escaped) ∧
        unescape caret false escaped = text ∧ ∀ c ∈ bare caret false escaped, c ∉ cmdMetachars := by
  constructor
  · rw [split_joinArguments, flatMap_eq_self_iff length_readBack]
    exact forall₂_congr fun a _ => readBack_eq_iff a
  · intro text
    refine ⟨caretEscape caret isMeta text, fun fuel hfuel => escapeArgumentForCmd_eq text hfuel,
      unescape_caretEscape (by decide) text, fun c hc => ?_⟩
    exact of_decide_eq_false (bare_caretEscape (by decide) text c hc)

/-- An empty argument is lost. -/
theorem empty_argument_lost : ¬∀ arguments : List WText, (∀ a ∈ arguments, 0 ∉ a) →
    split microsoft (joinArguments (arguments.map escapeArgument)) = arguments := by
  intro h
  exact absurd (h [[]] (by decide)) (by decide)

end Sunshine.Arguments
