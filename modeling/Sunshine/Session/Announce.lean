import Mathlib.Data.List.TakeWhile
import Sunshine.Lib.Cursors
import Sunshine.Session.Admission

/-! `parse_announce_payload` with its positions, and the payload a client serializes.

The scanner stays in the payload and splits it at the line breaks; of several attributes of one name the first stays.
So what the client serializes is read back: `parse_serialize`. -/
namespace Sunshine.Announce
open Admission Cursors Rtsp
set_option autoImplicit false

def lineBreak (ch : Char) : Bool := ch = '\r' ∨ ch = '\n'

/-- One line: `line.find(':')` and the two `substr`. -/
def parseLine (parsed : AnnouncePayload) (line : Text) : Except Fault (Option AnnouncePayload) :=
  if "s=".toList.isPrefixOf line then return some { parsed with client := line.drop 2 }
  else if "a=".toList.isPrefixOf line then do
    let separator ← find line (· = ':') 0
    if separator = line.length then return none
    else do
      let name ← copy line 2 separator
      let value ← copy line (separator + 1) line.length
      let value := if value.getLast? = some ' ' then value.dropLast else value
      return some { parsed with attributes := emplace name value parsed.attributes }
  else return some parsed

/-- The loop of `parse_announce_payload`. -/
def parseLoop (payload : Text) : ℕ → ℕ → AnnouncePayload → Except Fault (Option AnnouncePayload)
  | 0, _, _ => .error .endless
  | turns + 1, begin, parsed =>
    if begin < payload.length then do
      let finish ← find payload lineBreak begin
      let line ← copy payload begin finish
      let parsed ← parseLine parsed line
      match parsed with
      | none => return none
      | some parsed => do
        let begin ← find payload (fun ch => !lineBreak ch) finish
        parseLoop payload turns begin parsed
    else return some parsed

def parseAnnouncePayload (payload : Text) : Except Fault (Option AnnouncePayload) :=
  parseLoop payload (payload.length + 1) 0 ⟨[], []⟩

/-! ## What the client serializes -/

/-- An attribute on a line of its own, with what breaks the line. -/
structure AttributeLine where
  name : Text
  value : Text
  breaks : Text
  name_plain : ∀ ch ∈ name, ch ≠ ':' ∧ lineBreak ch = false
  value_plain : ∀ ch ∈ value, lineBreak ch = false
  breaks_only : ∀ ch ∈ breaks, lineBreak ch = true

def AttributeLine.line (entry : AttributeLine) : Text := "a=".toList ++ entry.name ++ ':' :: (entry.value ++ [' '])

def AttributeLine.attribute (entry : AttributeLine) : Text × Text := (entry.name, entry.value)

/-- Only the last line may go without a break. -/
structure Sdp where
  lines : List AttributeLine
  separated : ∀ entry ∈ lines.dropLast, entry.breaks ≠ []

def serialize (lines : List AttributeLine) : Text := lines.flatMap fun entry => entry.line ++ entry.breaks

/-! ## The scanner -/

section
variable {front rest line breaks : Text} {parsed : AnnouncePayload}

theorem takeWhile_colon (line : Text) :
    (line.takeWhile fun ch => !decide (ch = ':')) = line.takeWhile (· ≠ ':') := by
  congr 1
  funext ch
  exact (decide_not ..).symm

/-- The line around its first colon. -/
theorem line_at_colon (hcolon : ':' ∈ line) :
    line = line.takeWhile (· ≠ ':') ++ ':' :: (line.dropWhile (· ≠ ':')).drop 1 := by
  have hsplit := List.takeWhile_append_dropWhile (p := (· ≠ ':')) (l := line)
  cases hdrop : line.dropWhile (· ≠ ':') with
  | nil =>
    have hall := List.dropWhile_eq_nil_iff.mp hdrop ':' hcolon
    simp at hall
  | cons ch behind =>
    have hhead := List.head?_dropWhile_not (· ≠ ':') line
    rw [hdrop] at hhead
    have hch : ch = ':' := by simpa using hhead
    rw [hdrop, hch] at hsplit
    exact hsplit.symm

theorem parseLine_eq (parsed : AnnouncePayload) (line : Text) :
    parseLine parsed line = .ok (Admission.parseLine parsed line) := by
  unfold parseLine Admission.parseLine
  split
  · rfl
  · split
    · next hfront =>
      have hfind := find_here [] line (· = ':')
      rw [List.nil_append, List.nil_append, List.length_nil, takeWhile_colon] at hfind
      rw [hfind, ok_bind]
      by_cases hcolon : ':' ∈ line
      · have hline := line_at_colon hcolon
        obtain ⟨before, hbefore⟩ : ∃ before, before = line.takeWhile (· ≠ ':') := ⟨_, rfl⟩
        obtain ⟨after, hafter⟩ : ∃ after, after = (line.dropWhile (· ≠ ':')).drop 1 := ⟨_, rfl⟩
        have hname : before = "a=".toList ++ before.drop 2 := by
          obtain ⟨behind, hbehind⟩ := List.isPrefixOf_iff_prefix.mp hfront
          rw [hbefore, ← hbehind]
          rfl
        rw [← hbefore, ← hafter] at hline ⊢
        have hne : ¬before.length = line.length := by
          rw [hline]
          simp
        have hcopy : copy line 2 before.length = .ok (before.drop 2) := by
          have hhere := copy_here "a=".toList (before.drop 2) (':' :: after)
          rw [← List.append_assoc, ← hname, ← hline] at hhere
          exact hhere
        have hvalue : copy line (before.length + 1) line.length = .ok after := by
          have hhere := copy_here (before ++ [':']) after []
          rw [List.append_nil, List.append_assoc, List.singleton_append, ← hline, List.length_append,
            List.length_singleton] at hhere
          exact hhere
        rw [if_neg hne, if_pos hcolon, hcopy, ok_bind, hvalue, ok_bind]
        rfl
      · have hall : line.takeWhile (· ≠ ':') = line := by
          rw [List.takeWhile_eq_self_iff]
          intro ch hch
          have hne : ch ≠ ':' := fun heq => hcolon (heq ▸ hch)
          exact decide_eq_true hne
        rw [hall, if_pos rfl, if_neg hcolon]
        rfl
    · rfl

/-- Line breaks split off empty lines, which are no fields. -/
theorem foldlM_breaks (hbreaks : ∀ ch ∈ breaks, lineBreak ch = true) (parsed : AnnouncePayload) (rest : Text) :
    ((breaks ++ rest).splitOnP lineBreak).foldlM Admission.parseLine parsed =
      (rest.splitOnP lineBreak).foldlM Admission.parseLine parsed := by
  induction breaks with
  | nil => rfl
  | cons ch breaks ih =>
    have hch := hbreaks ch List.mem_cons_self
    have hempty : ((ch :: breaks ++ rest).splitOnP lineBreak) = [] :: ((breaks ++ rest).splitOnP lineBreak) :=
      List.splitOnP_append_cons_of_forall_mem (List.forall_mem_nil _) ch hch (breaks ++ rest)
    rw [hempty, List.foldlM_cons]
    exact ih fun ch' hmem => hbreaks ch' (List.mem_cons_of_mem _ hmem)

/-- A line in front of what is empty or starts with a line break. -/
theorem foldlM_line {behind : Text} (hline : ∀ ch ∈ line, lineBreak ch = false)
    (hbehind : ∀ ch ∈ behind.head?, lineBreak ch = true) (parsed : AnnouncePayload) :
    ((line ++ behind).splitOnP lineBreak).foldlM Admission.parseLine parsed =
      (Admission.parseLine parsed line).bind fun parsed =>
        (behind.splitOnP lineBreak).foldlM Admission.parseLine parsed := by
  cases behind with
  | nil =>
    rw [List.append_nil, List.splitOnP_eq_singleton hline, List.foldlM_cons]
    rfl
  | cons ch behind =>
    have hch := hbehind ch rfl
    rw [List.splitOnP_append_cons_of_forall_mem hline ch hch, List.foldlM_cons]
    have hbreak : ∀ ch' ∈ [ch], lineBreak ch' = true := List.forall_mem_singleton.mpr hch
    have hskip (parsed : AnnouncePayload) := foldlM_breaks hbreak parsed behind
    simp only [List.singleton_append] at hskip
    simp only [hskip]
    rfl

/-- Each turn takes at least one character off the rest. -/
theorem behind_head (rest : Text) : ∀ ch ∈ (rest.dropWhile fun ch => !lineBreak ch).head?, lineBreak ch = true := by
  intro ch hch
  have hfirst := List.head?_dropWhile_not (fun ch => !lineBreak ch) rest
  rw [hch] at hfirst
  simpa using hfirst

/-- A turn takes a line or what breaks it off the rest. -/
theorem behind_shorter (hrest : rest ≠ []) :
    ((rest.dropWhile fun ch => !lineBreak ch).dropWhile lineBreak).length < rest.length := by
  cases rest with
  | nil => exact absurd rfl hrest
  | cons ch rest =>
    by_cases hch : lineBreak ch = true
    · rw [List.dropWhile_cons_of_neg (by simp [hch]), List.dropWhile_cons_of_pos hch]
      exact Nat.lt_succ_of_le (List.length_dropWhile_le _ _)
    · rw [List.dropWhile_cons_of_pos (by simp [hch])]
      exact Nat.lt_succ_of_le (Nat.le_trans (List.length_dropWhile_le _ _) (List.length_dropWhile_le _ _))

theorem parseLoop_eq (turns : ℕ) (hturns : rest.length < turns) (front : Text) (parsed : AnnouncePayload) :
    parseLoop (front ++ rest) turns front.length parsed =
      .ok ((rest.splitOnP lineBreak).foldlM Admission.parseLine parsed) := by
  induction turns generalizing front rest parsed with
  | zero => cases hturns
  | succ turns ih =>
    rw [parseLoop]
    by_cases hrest : rest = []
    · subst hrest
      rw [if_neg (by simp)]
      rfl
    · have hbegin : front.length < (front ++ rest).length := by
        rw [List.length_append]
        have hpos := List.length_pos_iff.mpr hrest
        omega
      obtain ⟨line, hline⟩ : ∃ line, line = rest.takeWhile fun ch => !lineBreak ch := ⟨_, rfl⟩
      obtain ⟨behind, hbehind⟩ : ∃ behind, behind = rest.dropWhile fun ch => !lineBreak ch := ⟨_, rfl⟩
      obtain ⟨breaks, hbreaks⟩ : ∃ breaks, breaks = behind.takeWhile lineBreak := ⟨_, rfl⟩
      obtain ⟨rest', hrest'⟩ : ∃ rest', rest' = behind.dropWhile lineBreak := ⟨_, rfl⟩
      have hsplit : rest = line ++ behind := by
        rw [hline, hbehind, List.takeWhile_append_dropWhile]
      have hsplit' : behind = breaks ++ rest' := by
        rw [hbreaks, hrest', List.takeWhile_append_dropWhile]
      have hfind : find (front ++ rest) lineBreak front.length = .ok (front ++ line).length := by
        rw [find_here, ← hline]
      have hcopy : copy (front ++ rest) front.length (front ++ line).length = .ok line := by
        rw [hsplit]
        exact copy_here front line behind
      have hskip : find (front ++ rest) (fun ch => !lineBreak ch) (front ++ line).length =
          .ok (front ++ line ++ breaks).length := by
        rw [hsplit, ← List.append_assoc, find_here, hbreaks]
        simp only [Bool.not_not]
      have hplain : ∀ ch ∈ line, lineBreak ch = false := by
        intro ch hch
        rw [hline] at hch
        simpa using List.mem_takeWhile_imp hch
      have hhead : ∀ ch ∈ behind.head?, lineBreak ch = true := by
        rw [hbehind]
        exact behind_head rest
      have hbreak : ∀ ch ∈ breaks, lineBreak ch = true := by
        intro ch hch
        rw [hbreaks] at hch
        exact List.mem_takeWhile_imp hch
      rw [if_pos hbegin, hfind, ok_bind, hcopy, ok_bind, parseLine_eq, ok_bind]
      rw [show rest.splitOnP lineBreak = (line ++ behind).splitOnP lineBreak by rw [← hsplit], foldlM_line hplain hhead]
      cases Admission.parseLine parsed line with
      | none => rfl
      | some parsed' =>
        have hshorter : rest'.length < turns := by
          rw [hrest', hbehind]
          exact Nat.lt_of_lt_of_le (behind_shorter hrest) (Nat.le_of_lt_succ hturns)
        have hnext := ih hshorter (front ++ line ++ breaks) parsed'
        rw [List.append_assoc, ← hsplit', List.append_assoc, ← hsplit] at hnext
        simp only [hskip, ok_bind, Option.bind_some]
        rw [hnext, hsplit', foldlM_breaks hbreak]

/-- The positions give what splitting the payload gives. -/
theorem parseAnnouncePayload_eq (payload : Text) :
    parseAnnouncePayload payload = .ok (Admission.parseAnnouncePayload payload) :=
  parseLoop_eq (payload.length + 1) (Nat.lt_succ_self _) [] ⟨[], []⟩

/-! ## Reading back what is serialized -/

variable {attributes : Attributes}

theorem emplace_lookup (name value key : Text) (attributes : Attributes) :
    (emplace name value attributes).lookup key = (attributes.lookup key).or ([(name, value)].lookup key) := by
  unfold emplace
  split
  · next hsome =>
    by_cases hkey : key = name
    · rw [hkey, Option.or_of_isSome hsome]
    · have hnone : [(name, value)].lookup key = none := by
        rw [List.lookup_cons, beq_eq_false_iff_ne.mpr hkey]
        rfl
      rw [hnone, Option.or_none]
  · rw [List.lookup_append]

theorem mark_plain : ∀ ch ∈ "a=".toList, ch ≠ ':' ∧ lineBreak ch = false := by
  simp [lineBreak]

theorem parseLine_line (parsed : AnnouncePayload) (entry : AttributeLine) :
    Admission.parseLine parsed entry.line =
      some { parsed with attributes := emplace entry.name entry.value parsed.attributes } := by
  have hcolon : ∀ ch ∈ "a=".toList ++ entry.name, decide (ch ≠ ':') = true := by
    intro ch hch
    rcases List.mem_append.mp hch with hmark | hname
    · exact decide_eq_true (mark_plain ch hmark).1
    · exact decide_eq_true (entry.name_plain ch hname).1
  have htake : entry.line.takeWhile (· ≠ ':') = "a=".toList ++ entry.name := by
    rw [AttributeLine.line, List.takeWhile_append_of_pos hcolon, List.takeWhile_cons_of_neg (by simp), List.append_nil]
  have hdrop : entry.line.dropWhile (· ≠ ':') = ':' :: (entry.value ++ [' ']) := by
    rw [AttributeLine.line, List.dropWhile_append_of_pos hcolon, List.dropWhile_cons_of_neg (by simp)]
  have hmem : ':' ∈ entry.line := by simp [AttributeLine.line]
  have hclient : ¬"s=".toList.isPrefixOf entry.line = true := by simp [AttributeLine.line]
  have hattribute : "a=".toList.isPrefixOf entry.line = true := by simp [AttributeLine.line]
  rw [Admission.parseLine, if_neg hclient, if_pos hattribute, if_pos hmem, htake, hdrop]
  simp

theorem line_plain (entry : AttributeLine) : ∀ ch ∈ entry.line, lineBreak ch = false := by
  intro ch hch
  unfold AttributeLine.line at hch
  simp only [List.mem_append, List.mem_cons, List.not_mem_nil, or_false] at hch
  rcases hch with (hmark | hname) | rfl | hvalue | rfl
  · exact (mark_plain ch hmark).2
  · exact (entry.name_plain ch hname).2
  · decide
  · exact entry.value_plain ch hvalue
  · decide

theorem foldlM_serialize (lines : List AttributeLine) (hseparated : ∀ entry ∈ lines.dropLast, entry.breaks ≠ [])
    (parsed : AnnouncePayload) :
    ((serialize lines).splitOnP lineBreak).foldlM Admission.parseLine parsed =
      some { parsed with
        attributes := lines.foldl (fun attributes entry => emplace entry.name entry.value attributes)
          parsed.attributes } := by
  induction lines generalizing parsed with
  | nil => rfl
  | cons entry lines ih =>
    have hserialize : serialize (entry :: lines) = entry.line ++ (entry.breaks ++ serialize lines) := by
      rw [serialize, List.flatMap_cons, List.append_assoc]
      rfl
    have hbehind : ∀ ch ∈ (entry.breaks ++ serialize lines).head?, lineBreak ch = true := by
      intro ch hch
      cases lines with
      | nil =>
        rw [serialize, List.flatMap_nil, List.append_nil] at hch
        exact entry.breaks_only ch (List.mem_of_mem_head? hch)
      | cons next lines =>
        have hne : entry.breaks ≠ [] := hseparated entry List.mem_cons_self
        rw [List.head?_append_of_ne_nil _ hne] at hch
        exact entry.breaks_only ch (List.mem_of_mem_head? hch)
    have hlater : ∀ entry' ∈ lines.dropLast, entry'.breaks ≠ [] := by
      intro entry' hmem
      cases lines with
      | nil => cases hmem
      | cons next lines => exact hseparated entry' (List.mem_cons_of_mem _ hmem)
    rw [hserialize, foldlM_line (line_plain entry) hbehind, parseLine_line, Option.bind_some,
      foldlM_breaks entry.breaks_only, ih hlater]
    rfl

theorem foldl_lookup (lines : List AttributeLine) (attributes : Attributes) (key : Text) :
    (lines.foldl (fun attributes entry => emplace entry.name entry.value attributes) attributes).lookup key =
      (attributes.lookup key).or ((lines.map AttributeLine.attribute).lookup key) := by
  induction lines generalizing attributes with
  | nil => simp
  | cons entry lines ih =>
    rw [List.foldl_cons, ih, emplace_lookup, Option.or_assoc, ← List.lookup_append]
    rfl

/-- Every payload is read to its end and nothing outside it is read; of what a client serializes, each name has the
first value that it was given. -/
theorem parse_serialize (payload : Text) (sdp : Sdp) :
    (∃ result, parseAnnouncePayload payload = .ok result) ∧
      ∃ parsed, parseAnnouncePayload (serialize sdp.lines) = .ok (some parsed) ∧ parsed.client = [] ∧
        ∀ name, parsed.attributes.lookup name = (sdp.lines.map AttributeLine.attribute).lookup name := by
  refine ⟨⟨_, parseAnnouncePayload_eq payload⟩, ?_⟩
  have hparsed := foldlM_serialize sdp.lines sdp.separated ⟨[], []⟩
  refine ⟨_, (parseAnnouncePayload_eq _).trans (congrArg Except.ok hparsed), rfl, fun name => ?_⟩
  rw [foldl_lookup, List.lookup_nil, Option.none_or]
end

end Sunshine.Announce
