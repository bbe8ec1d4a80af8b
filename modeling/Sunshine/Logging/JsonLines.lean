import Sunshine.Lib.JsonNumbers
import Sunshine.Lib.JsonTexts

/-! The lines of the log (`logging::formatter`), one JSON document each if the environment asks for that.

`json_escape` escapes the quote, the backslash and three of the control characters. The other control characters must not
stand in a string of a document either, and bytes that are no UTF-8 stay as they are: a message with one of them makes a
line that a reader of JSON refuses. -/
namespace Sunshine.Logging
open Json
set_option autoImplicit false

def escapeByte (c : UInt8) : Bytes :=
  if c = quote then ascii "\\\""
  else if c = backslash then ascii "\\\\"
  else if c = 10 then ascii "\\n"
  else if c = 13 then ascii "\\r"
  else if c = 9 then ascii "\\t"
  else [c]

def jsonEscape (s : Bytes) : Bytes := s.foldl (fun out c => out ++ escapeByte c) []

/-- `std::tm` as far as it is shown. -/
structure Tm where
  year : ℤ
  month : ℕ
  day : ℕ
  hour : ℕ
  minute : ℕ
  second : ℕ

/-- The local time and the milliseconds since its second began. -/
structure Now where
  lt : Tm
  ms : ℕ

def padded (width n : ℕ) : Bytes := List.replicate (width - (natural n).length) 48 ++ natural n

/-- `%Y-%m-%d %H:%M:%S.` and three digits. -/
def Now.stamp (now : Now) : Bytes :=
  integer now.lt.year ++ ascii "-" ++ padded 2 now.lt.month ++ ascii "-" ++ padded 2 now.lt.day ++ ascii " " ++
    padded 2 now.lt.hour ++ ascii ":" ++ padded 2 now.lt.minute ++ ascii ":" ++ padded 2 now.lt.second ++ ascii "." ++
    padded 3 now.ms

def levelName (logLevel : ℤ) : Bytes :=
  match logLevel with
  | 0 => ascii "Verbose"
  | 1 => ascii "Debug"
  | 2 => ascii "Info"
  | 3 => ascii "Warning"
  | 4 => ascii "Error"
  | 5 => ascii "Fatal"
  | _ => []

def logType (logLevel : ℤ) : Bytes :=
  match logLevel with
  | 0 => ascii "Verbose: "
  | 1 => ascii "Debug: "
  | 2 => ascii "Info: "
  | 3 => ascii "Warning: "
  | 4 => ascii "Error: "
  | 5 => ascii "Fatal: "
  | _ => []

/-- `SUNSHINE_LOG_JSON` as it is in the environment. -/
def isJsonLoggingEnabled (env : Option Bytes) : Bool := env = some (ascii "1")

def formatter (env : Option Bytes) (now : Now) (logLevel : ℤ) (message : Option Bytes) : Bytes :=
  if isJsonLoggingEnabled env then
    ascii "\x7b\"ts\":\"" ++ jsonEscape now.stamp ++ ascii "\",\"level\":\"" ++ jsonEscape (levelName logLevel) ++
      ascii "\",\"msg\":\"" ++ jsonEscape (message.getD []) ++ ascii "\"\x7d"
  else ascii "[" ++ now.stamp ++ ascii "]: " ++ logType logLevel ++ message.getD []

/-- JSON as it is defined: a document ends where its text ends. -/
def strict : Dialect Bytes where
  number lexeme := if numeral lexeme then some lexeme else none
  ends _ := false

/-- A line of the log that says this message. -/
def Says (line message : Bytes) : Prop :=
  10 ∉ line ∧ 13 ∉ line ∧ ∃ document, Json.document strict line = some document ∧
    document.find (ascii "msg") = some (.string message)

/-! ## What is escaped -/

theorem jsonEscape_eq (s : Bytes) : jsonEscape s = s.flatMap escapeByte := List.flatMap_eq_foldl.symm

theorem escapes : Escapes escapeByte := by
  intro b
  unfold escapeByte
  split_ifs with hquote hbackslash hnewline hreturn htab
  · exact Or.inr ⟨by rw [hquote]; decide, [quote], rfl, by rw [hquote]; rfl⟩
  · exact Or.inr ⟨by rw [hbackslash]; decide, [backslash], rfl, by rw [hbackslash]; rfl⟩
  · exact Or.inr ⟨by rw [hnewline]; decide, [110], rfl, by rw [hnewline]; rfl⟩
  · exact Or.inr ⟨by rw [hreturn]; decide, [114], rfl, by rw [hreturn]; rfl⟩
  · exact Or.inr ⟨by rw [htab]; decide, [116], rfl, by rw [htab]; rfl⟩
  · exact Or.inl ⟨rfl, hquote, hbackslash⟩

theorem escapeByte_self {b : UInt8} :
    escapeByte b = [b] ↔ b ≠ quote ∧ b ≠ backslash ∧ b ≠ 10 ∧ b ≠ 13 ∧ b ≠ 9 := by
  unfold escapeByte
  split_ifs with hquote hbackslash hnewline hreturn htab
  · simp [hquote, ascii]
  · simp [hbackslash, ascii]
  · simp [hnewline, ascii]
  · simp [hreturn, ascii]
  · simp [htab, ascii]
  · simp [hquote, hbackslash, hnewline, hreturn, htab]

/-- The escaped text has no line break, whatever is in it. -/
theorem jsonEscape_one_line {b : UInt8} (s : Bytes) (hbreak : b = 10 ∨ b = 13) : b ∉ jsonEscape s := by
  rw [jsonEscape_eq, List.mem_flatMap]
  rintro ⟨c, -, hmem⟩
  unfold escapeByte at hmem
  split_ifs at hmem with hquote hbackslash hnewline hreturn htab
  · obtain rfl | rfl := hbreak <;> exact absurd hmem (by decide)
  · obtain rfl | rfl := hbreak <;> exact absurd hmem (by decide)
  · obtain rfl | rfl := hbreak <;> exact absurd hmem (by decide)
  · obtain rfl | rfl := hbreak <;> exact absurd hmem (by decide)
  · obtain rfl | rfl := hbreak <;> exact absurd hmem (by decide)
  · rw [List.mem_singleton] at hmem
    obtain rfl | rfl := hbreak
    · exact hnewline hmem.symm
    · exact hreturn hmem.symm

/-- The messages that `json_escape` escapes as a string of a document. -/
def Escapable (message : Bytes) : Prop :=
  Utf8.Valid message ∧ ∀ b ∈ message, b.toNat < 0x20 → b = 9 ∨ b = 10 ∨ b = 13

instance (message : Bytes) : Decidable (Escapable message) :=
  have : Decidable (∀ b ∈ message, b.toNat < 0x20 → b = 9 ∨ b = 10 ∨ b = 13) := List.decidableBAll _ _
  inferInstanceAs (Decidable (_ ∧ _))

theorem escapable_iff (message : Bytes) :
    message.foldlM (textStep escapeByte) .start = some .start ↔ Escapable message := by
  rw [foldlM_admit_iff]
  constructor
  · rintro ⟨hshown, hvalid⟩
    refine ⟨hvalid, fun b hmem hcontrol => ?_⟩
    by_contra hother
    simp only [not_or] at hother
    have hself : escapeByte b = [b] := by
      refine escapeByte_self.mpr ⟨?_, ?_, hother.2.1, hother.2.2, hother.1⟩
      · rintro rfl
        exact absurd hcontrol (by decide)
      · rintro rfl
        exact absurd hcontrol (by decide)
    exact absurd (hshown b hmem hself) (by omega)
  · rintro ⟨hvalid, hcontrols⟩
    refine ⟨fun b hmem hself => ?_, hvalid⟩
    by_contra hcontrol
    obtain ⟨-, -, hnewline, hreturn, htab⟩ := escapeByte_self.mp hself
    obtain rfl | rfl | rfl := hcontrols b hmem (by omega)
    · exact htab rfl
    · exact hnewline rfl
    · exact hreturn rfl

/-! ## The line -/

/-- Text without control characters, in ASCII. -/
def Shown (s : Bytes) : Prop := ∀ b ∈ s, 0x20 ≤ b.toNat ∧ b.toNat < 0x80

instance (s : Bytes) : Decidable (Shown s) := List.decidableBAll _ _

theorem shown_append {s t : Bytes} (hs : Shown s) (ht : Shown t) : Shown (s ++ t) := by
  intro b hmem
  obtain hmem | hmem := List.mem_append.mp hmem
  · exact hs b hmem
  · exact ht b hmem

theorem shown_digit {b : UInt8} (hdigit : isDigit b = true) : 0x20 ≤ b.toNat ∧ b.toNat < 0x80 := by
  have hrange := of_decide_eq_true hdigit
  omega

theorem shown_integer (z : ℤ) : Shown (integer z) := by
  intro b hmem
  obtain rfl | hdigit := mem_integer hmem
  · decide
  · exact shown_digit hdigit

theorem shown_padded (width n : ℕ) : Shown (padded width n) := by
  refine shown_append (fun b hmem => ?_) fun b hmem => shown_digit (isDigit_natural hmem)
  rw [List.eq_of_mem_replicate hmem]
  decide

theorem shown_field {front sign : Bytes} (hfront : Shown front) (hsign : Shown sign) (width n : ℕ) :
    Shown (front ++ sign ++ padded width n) := shown_append (shown_append hfront hsign) (shown_padded width n)

theorem shown_stamp (now : Now) : Shown now.stamp := by
  have hmonth := shown_field (shown_integer now.lt.year) (by decide : Shown (ascii "-")) 2 now.lt.month
  have hday := shown_field hmonth (by decide : Shown (ascii "-")) 2 now.lt.day
  have hhour := shown_field hday (by decide : Shown (ascii " ")) 2 now.lt.hour
  have hminute := shown_field hhour (by decide : Shown (ascii ":")) 2 now.lt.minute
  have hsecond := shown_field hminute (by decide : Shown (ascii ":")) 2 now.lt.second
  exact shown_field hsecond (by decide : Shown (ascii ".")) 3 now.ms

theorem shown_levelName (logLevel : ℤ) : Shown (levelName logLevel) := by
  unfold levelName
  split <;> decide

theorem shown_escapable {s : Bytes} (hshown : Shown s) : Escapable s := by
  refine ⟨Utf8.run_ascii fun b hmem => (hshown b hmem).2, fun b hmem hcontrol => ?_⟩
  exact absurd (hshown b hmem).1 (by omega)

def stringEntry (key s : Bytes) : Entry Bytes := ⟨key, quote :: s.flatMap escapeByte ++ [quote], .string s⟩

theorem stringEntry_faithful {key s : Bytes} (hkey : Plain key) (hs : Escapable s) : (stringEntry key s).Faithful strict :=
  ⟨hkey, reads_string escapes ((escapable_iff s).mpr hs)⟩

def lineFront (now : Now) (logLevel : ℤ) : List (Entry Bytes) :=
  [stringEntry (ascii "ts") now.stamp, stringEntry (ascii "level") (levelName logLevel)]

def lineEntries (now : Now) (logLevel : ℤ) (message : Bytes) : List (Entry Bytes) :=
  lineFront now logLevel ++ [stringEntry (ascii "msg") message]

/-- In JSON mode the line is an object of three strings. -/
theorem formatter_json {env : Option Bytes} (henv : isJsonLoggingEnabled env = true) (now : Now) (logLevel : ℤ)
    (message : Option Bytes) :
    formatter env now logLevel message = objectWritten (lineEntries now logLevel (message.getD [])) := by
  have hopen : ascii "\x7b\"ts\":\"" = leftBrace :: quote :: (ascii "ts" ++ [quote, colon, quote]) := rfl
  have hlevel : ascii "\",\"level\":\"" = quote :: comma :: quote :: (ascii "level" ++ [quote, colon, quote]) := rfl
  have hmsg : ascii "\",\"msg\":\"" = quote :: comma :: quote :: (ascii "msg" ++ [quote, colon, quote]) := rfl
  have hclose : ascii "\"\x7d" = [quote, rightBrace] := rfl
  simp only [formatter, henv, if_true, hopen, hlevel, hmsg, hclose, jsonEscape_eq, lineEntries, lineFront, objectWritten, entriesWritten,
    Entry.written, stringEntry, List.cons_append, List.append_assoc, List.nil_append]

theorem formatter_one_line {env : Option Bytes} (henv : isJsonLoggingEnabled env = true) (now : Now) (logLevel : ℤ)
    (message : Option Bytes) {b : UInt8} (hbreak : b = 10 ∨ b = 13) : b ∉ formatter env now logLevel message := by
  have hfixed : ∀ text : Bytes, 10 ∉ text → 13 ∉ text → b ∉ text := by
    intro text hnewline hreturn
    obtain rfl | rfl := hbreak
    · exact hnewline
    · exact hreturn
  simp only [formatter, henv, if_true, List.mem_append, not_or]
  refine ⟨⟨⟨⟨⟨⟨?_, ?_⟩, ?_⟩, ?_⟩, ?_⟩, ?_⟩, ?_⟩
  · exact hfixed _ (by decide) (by decide)
  · exact jsonEscape_one_line _ hbreak
  · exact hfixed _ (by decide) (by decide)
  · exact jsonEscape_one_line _ hbreak
  · exact hfixed _ (by decide) (by decide)
  · exact jsonEscape_one_line _ hbreak
  · exact hfixed _ (by decide) (by decide)

theorem stringEntry_broken {key s : Bytes} (hkey : Plain key) (hs : ¬Escapable s) (members : List (Bytes × Value Bytes))
    (closing : Bool) (rest : Bytes) :
    (Reader.mk [.object members] (.key closing)).run strict ((stringEntry key s).written ++ rest) = none := by
  have hwritten : (stringEntry key s).written ++ rest =
      quote :: key ++ quote :: colon :: (quote :: s.flatMap escapeByte ++ quote :: rest) := by
    simp [stringEntry, Entry.written]
  rw [hwritten, run_key hkey]
  exact run_unescaped escapes (fun heq => hs ((escapable_iff s).mp heq)) false rest

theorem front_faithful (now : Now) (logLevel : ℤ) : ∀ e ∈ lineFront now logLevel, e.Faithful strict := by
  have hts := stringEntry_faithful (by decide : Plain (ascii "ts")) (shown_escapable (shown_stamp now))
  have hlevel := stringEntry_faithful (by decide : Plain (ascii "level")) (shown_escapable (shown_levelName logLevel))
  exact List.forall_mem_cons.mpr ⟨hts, List.forall_mem_singleton.mpr hlevel⟩

theorem find_msg (now : Now) (logLevel : ℤ) (message : Bytes) :
    (Value.object ((lineEntries now logLevel message).map Entry.pair)).find (ascii "msg") = some (.string message) := by
  rw [lineEntries, List.map_append, Value.find, List.reverse_append]
  rfl

/-- A line of the log in JSON mode says its message if the message is well-formed UTF-8 and its control characters are
those that have an escape of their own, and only then. -/
theorem formatter_says_iff (env : Option Bytes) (now : Now) (logLevel : ℤ) (message : Option Bytes)
    (henv : isJsonLoggingEnabled env = true) :
    Says (formatter env now logLevel message) (message.getD []) ↔ Escapable (message.getD []) := by
  have hkey : Plain (ascii "msg") := by decide
  constructor
  · rintro ⟨-, -, document, hread, -⟩
    by_contra hbad
    have hnone : Json.document strict (objectWritten (lineEntries now logLevel (message.getD []))) = none :=
      document_broken _ [] (front_faithful now logLevel) (stringEntry_broken hkey hbad)
    rw [formatter_json henv, hnone] at hread
    exact absurd hread (by simp)
  · intro hgood
    have hfaithful : ∀ e ∈ lineEntries now logLevel (message.getD []), e.Faithful strict :=
      List.forall_mem_append.mpr
        ⟨front_faithful now logLevel, List.forall_mem_singleton.mpr (stringEntry_faithful hkey hgood)⟩
    have hread : Json.document strict (formatter env now logLevel message) =
        some (.object ((lineEntries now logLevel (message.getD [])).map Entry.pair)) := by
      rw [formatter_json henv]
      exact document_object (List.cons_ne_nil _ _) hfaithful
    exact ⟨formatter_one_line henv _ _ _ (Or.inl rfl), formatter_one_line henv _ _ _ (Or.inr rfl), _, hread,
      find_msg now logLevel _⟩

/-- Midnight of the first day of 1970. -/
def epoch : Now := ⟨⟨1970, 1, 1, 0, 0, 0⟩, 0⟩

theorem formatter_says_ready : Says (formatter (some (ascii "1")) epoch 2 (some (ascii "ready"))) (ascii "ready") :=
  (formatter_says_iff _ epoch 2 (some (ascii "ready")) (by decide)).mpr (by decide)

/-- An escape character, as in a text that is to be shown in colour. -/
theorem formatter_escape_unsaid :
    ¬∀ (env : Option Bytes) (now : Now) (logLevel : ℤ) (message : Option Bytes), isJsonLoggingEnabled env = true →
      Says (formatter env now logLevel message) (message.getD []) := by
  intro hsays
  obtain ⟨-, -, document, hread, -⟩ := hsays (some (ascii "1")) epoch 2 (some [27]) (by decide)
  have hnone : Json.document strict (formatter (some (ascii "1")) epoch 2 (some [27])) = none := rfl
  rw [hnone] at hread
  exact absurd hread (by simp)

end Sunshine.Logging
