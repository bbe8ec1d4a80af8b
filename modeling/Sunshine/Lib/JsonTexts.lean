import Mathlib.Data.List.Induction
import Sunshine.Lib.Json

/-! What the reader of JSON makes of texts that are written a string, a member or an object at a time. -/
namespace Sunshine.Json
set_option autoImplicit false

variable {N : Type} {d : Dialect N} {stack : List (Frame N)} {b : UInt8}

theorem run_append (r : Reader N) (front back : Bytes) : r.run d (front ++ back) = (r.run d front).bind fun r => r.run d back :=
  List.foldlM_append

theorem run_cons (r : Reader N) (text : Bytes) : r.run d (b :: text) = (r.step d b).bind fun r => r.run d text :=
  List.foldlM_cons

/-! ## Strings -/

theorem step_string {isKey : Bool} {inside inside' : Inside} {text more : Bytes} (hstep : inside.step b = some (more, inside')) :
    (Reader.mk stack (.string isKey text inside)).step d b = some ⟨stack, .string isKey (text ++ more) inside'⟩ := by
  have hopen : ¬(inside = .text .start ∧ b = quote) := by
    rintro ⟨rfl, rfl⟩
    exact absurd hstep (by simp [Inside.step, quote, backslash])
  simp only [Reader.step, if_neg hopen, hstep, Option.map_some]

theorem run_string {isKey : Bool} {inside inside' : Inside} {text more written : Bytes}
    (hrun : inside.run written = some (more, inside')) (rest : Bytes) :
    (Reader.mk stack (.string isKey text inside)).run d (written ++ rest) =
      (Reader.mk stack (.string isKey (text ++ more) inside')).run d rest := by
  induction written generalizing inside text more with
  | nil =>
    obtain ⟨rfl, rfl⟩ : [] = more ∧ inside = inside' := by simpa [Inside.run] using hrun
    rw [List.nil_append, List.append_nil]
  | cons b written ih =>
    rw [Inside.run, Option.bind_eq_some_iff] at hrun
    obtain ⟨⟨one, mid⟩, hstep, hrest⟩ := hrun
    obtain ⟨⟨others, last⟩, hothers, heq⟩ := Option.map_eq_some_iff.mp hrest
    simp only [Prod.mk.injEq] at heq
    obtain ⟨rfl, rfl⟩ := heq
    rw [List.cons_append, run_cons, step_string hstep, Option.bind_some, ih hothers, List.append_assoc]

/-- Every byte is written as itself or, if it is ASCII, as an escape that stands for it. -/
def Escapes (escape : UInt8 → Bytes) : Prop :=
  ∀ b, (escape b = [b] ∧ b ≠ quote ∧ b ≠ backslash) ∨
    (b.toNat < 0x80 ∧ ∃ tail, escape b = backslash :: tail ∧ Inside.escape.run tail = some ([b], .text .start))

/-- A byte read behind a beginning of a well-formed text; control characters must be escaped. -/
def textStep (escape : UInt8 → Bytes) (q : Utf8.State) (b : UInt8) : Option Utf8.State :=
  if escape b = [b] ∧ b.toNat < 0x20 then none else Utf8.step q b

theorem run_escape {escape : UInt8 → Bytes} (hescape : Escapes escape) {isKey : Bool} {q : Utf8.State} (text rest : Bytes) :
    (Reader.mk stack (.string isKey text (.text q))).run d (escape b ++ rest) =
      (textStep escape q b).bind fun q' => (Reader.mk stack (.string isKey (text ++ [b]) (.text q'))).run d rest := by
  obtain ⟨hplain, hquote, hbackslash⟩ | ⟨hascii, tail, hwritten, htail⟩ := hescape b
  · have hopen : ¬(Inside.text q = .text .start ∧ b = quote) := fun h => hquote h.2
    rw [hplain, List.singleton_append, run_cons, textStep]
    by_cases hcontrol : b.toNat < 0x20
    · simp only [Reader.step, if_neg hopen, Inside.step, if_neg hbackslash, if_pos (Or.inr hcontrol), hplain]
      rw [if_pos ⟨trivial, hcontrol⟩]
      rfl
    · have hshown : ¬(b = quote ∨ b.toNat < 0x20) := not_or.mpr ⟨hquote, hcontrol⟩
      simp only [Reader.step, if_neg hopen, Inside.step, if_neg hbackslash, if_neg hshown, hplain]
      rw [if_neg fun h => hcontrol h.2]
      cases Utf8.step q b <;> rfl
  · have hlong : escape b ≠ [b] := by
      rw [hwritten]
      rintro heq
      obtain ⟨-, rfl⟩ := List.cons.inj heq
      exact absurd htail (by simp [Inside.run])
    rw [textStep, if_neg fun h => hlong h.1, hwritten, List.cons_append, run_cons]
    by_cases hstart : q = .start
    · rw [hstart, Utf8.step_ascii hascii, Option.bind_some]
      have hbackslash : (Inside.text .start).step backslash = some ([], .escape) := rfl
      rw [step_string hbackslash, Option.bind_some, run_string htail, List.append_nil]
    · rw [Utf8.step_inside hstart hascii]
      have hopen : ¬(Inside.text q = .text .start ∧ backslash = quote) := fun h => absurd h.2 (by decide)
      simp only [Reader.step, if_neg hopen, Inside.step, if_true, if_neg hstart]
      rfl

theorem run_escaped {escape : UInt8 → Bytes} (hescape : Escapes escape) {isKey : Bool} (message text rest : Bytes)
    (q : Utf8.State) :
    (Reader.mk stack (.string isKey text (.text q))).run d (message.flatMap escape ++ rest) =
      (message.foldlM (textStep escape) q).bind fun q' =>
        (Reader.mk stack (.string isKey (text ++ message) (.text q'))).run d rest := by
  induction message generalizing text q with
  | nil => simp
  | cons b message ih =>
    rw [List.flatMap_cons, List.append_assoc, run_escape hescape, List.foldlM_cons]
    cases hadmit : textStep escape q b with
    | none => rfl
    | some q' =>
      simp only [Option.bind_some, Option.bind_eq_bind]
      rw [ih, List.append_assoc, List.singleton_append]

theorem admit_eq_some_iff {escape : UInt8 → Bytes} {q q' : Utf8.State} :
    textStep escape q b = some q' ↔ (escape b = [b] → 0x20 ≤ b.toNat) ∧ Utf8.step q b = some q' := by
  by_cases hcontrol : escape b = [b] ∧ b.toNat < 0x20
  · have hbad : ¬(escape b = [b] → 0x20 ≤ b.toNat) := fun h => absurd (h hcontrol.1) (by omega)
    rw [textStep, if_pos hcontrol]
    exact ⟨fun h => absurd h (by simp), fun h => absurd h.1 hbad⟩
  · have hgood : escape b = [b] → 0x20 ≤ b.toNat := fun h => Nat.le_of_not_lt fun hlow => hcontrol ⟨h, hlow⟩
    rw [textStep, if_neg hcontrol]
    exact ⟨fun h => ⟨hgood, h⟩, fun h => h.2⟩

theorem foldlM_admit_iff {escape : UInt8 → Bytes} (message : Bytes) (q q' : Utf8.State) :
    message.foldlM (textStep escape) q = some q' ↔
      (∀ b ∈ message, escape b = [b] → 0x20 ≤ b.toNat) ∧ Utf8.run q message = some q' := by
  induction message generalizing q with
  | nil => simp [Utf8.run]
  | cons b message ih =>
    simp only [Utf8.run, List.foldlM_cons, List.forall_mem_cons, Option.bind_eq_bind, Option.bind_eq_some_iff,
      admit_eq_some_iff]
    constructor
    · rintro ⟨mid, ⟨hfirst, hstep⟩, hrest⟩
      obtain ⟨hothers, hrun⟩ := (ih mid).mp hrest
      exact ⟨⟨hfirst, hothers⟩, mid, hstep, hrun⟩
    · rintro ⟨⟨hfirst, hothers⟩, mid, hstep, hrun⟩
      exact ⟨mid, ⟨hfirst, hstep⟩, (ih mid).mpr ⟨hothers, hrun⟩⟩

theorem run_quote {isKey : Bool} (text rest : Bytes) (q : Utf8.State) :
    (Reader.mk stack (.string isKey text (.text q))).run d (quote :: rest) =
      if q = .start then (endString text isKey stack).bind fun r => r.run d rest else none := by
  rw [run_cons]
  by_cases hstart : q = .start
  · rw [if_pos hstart, hstart]
    rfl
  · have hopen : ¬(Inside.text q = .text .start ∧ quote = quote) := fun h => hstart (Inside.text.inj h.1)
    have hstep : (Reader.mk stack (.string isKey text (.text q))).step d quote = none := (if_neg hopen).trans rfl
    rw [hstep, if_neg hstart]
    rfl

/-- Bytes that are read as themselves. -/
def Plain (text : Bytes) : Prop := ∀ b ∈ text, b ≠ quote ∧ b ≠ backslash ∧ 0x20 ≤ b.toNat ∧ b.toNat < 0x80

instance (text : Bytes) : Decidable (Plain text) := List.decidableBAll _ _

theorem inside_plain {text : Bytes} (hplain : Plain text) :
    (Inside.text .start).run text = some (text, .text .start) := by
  induction text with
  | nil => rfl
  | cons b text ih =>
    obtain ⟨hquote, hbackslash, hshown, hascii⟩ := hplain b List.mem_cons_self
    have hfree : ¬(b = quote ∨ b.toNat < 0x20) := not_or.mpr ⟨hquote, by omega⟩
    have hstep : (Inside.text .start).step b = some ([b], .text .start) := by
      simp only [Inside.step, if_neg hbackslash, if_neg hfree, Utf8.step_ascii hascii, Option.map_some]
    rw [Inside.run, hstep, Option.bind_some, ih fun other hother => hplain other (List.mem_cons_of_mem _ hother)]
    rfl

theorem run_key {members : List (Bytes × Value N)} {closing : Bool} {key : Bytes} (hplain : Plain key) (rest : Bytes) :
    (Reader.mk (.object members :: stack) (.key closing)).run d (quote :: key ++ quote :: colon :: rest) =
      (Reader.mk (.member members key :: stack) (.value false)).run d rest := by
  have hopen : (Reader.mk (.object members :: stack) (.key closing)).step d quote =
      some ⟨.object members :: stack, .string true [] (.text .start)⟩ := rfl
  rw [List.cons_append, run_cons, hopen, Option.bind_some, run_string (inside_plain hplain), List.nil_append, run_quote,
    if_pos rfl]
  rfl

/-! ## Values -/

/-- Where a value is awaited, the text is read as this one, whatever is open around it. A number ends where the next
byte cannot belong to it. -/
def Reads (d : Dialect N) (text : Bytes) (value : Value N) : Prop :=
  ∀ stack closing b rest, numeric b = false →
    (Reader.mk stack (.value closing)).run d (text ++ b :: rest) = (deliver stack value).bind fun r => r.run d (b :: rest)

theorem first_numeric (r : Reader N) (closing : Bool) (hnumeric : numeric b = true) :
    r.first closing b = some ⟨r.stack, .number [b]⟩ := by
  have hother : ∀ other : UInt8, numeric other = false → b ≠ other := by
    rintro other hother rfl
    exact absurd hnumeric (by simp [hother])
  have hblank : blank b = false := by
    simp [blank, hother 32 rfl, hother 9 rfl, hother 10 rfl, hother 13 rfl]
  simp [Reader.first, hblank, hother leftBracket rfl, hother leftBrace rfl, hother quote rfl, hother 116 rfl,
    hother 102 rfl, hother 110 rfl, hnumeric]

theorem run_lexeme {lexeme more : Bytes} (hnumeric : ∀ b ∈ more, numeric b = true) (rest : Bytes) :
    (Reader.mk stack (.number lexeme)).run d (more ++ rest) = (Reader.mk stack (.number (lexeme ++ more))).run d rest := by
  induction more generalizing lexeme with
  | nil => simp
  | cons b more ih =>
    have hstep : (Reader.mk stack (.number lexeme)).step d b = some ⟨stack, .number (lexeme ++ [b])⟩ :=
      if_pos (hnumeric b List.mem_cons_self)
    rw [List.cons_append, run_cons, hstep, Option.bind_some,
      ih fun other hother => hnumeric other (List.mem_cons_of_mem _ hother), List.append_assoc, List.singleton_append]

/-- Behind a value every byte is read as one behind a value. -/
theorem deliver_step {value : Value N} {r : Reader N} (hdeliver : deliver stack value = some r) : r.step d b = r.after d b := by
  cases stack with
  | nil =>
    obtain rfl := Option.some.inj hdeliver
    rfl
  | cons frame stack =>
    cases frame with
    | array items =>
      obtain rfl := Option.some.inj hdeliver
      rfl
    | object members => exact absurd hdeliver (by simp [deliver])
    | member members key =>
      obtain rfl := Option.some.inj hdeliver
      rfl

theorem reads_number {lexeme : Bytes} {value : N} (hlexeme : lexeme ≠ []) (hnumeric : ∀ b ∈ lexeme, numeric b = true)
    (hvalue : d.number lexeme = some value) : Reads d lexeme (.number value) := by
  intro stack closing b rest hend
  obtain ⟨head, more, rfl⟩ := List.exists_cons_of_ne_nil hlexeme
  have hfirst : (Reader.mk stack (.value closing)).step d head = some ⟨stack, .number [head]⟩ :=
    first_numeric _ closing (hnumeric head List.mem_cons_self)
  have hlast : (Reader.mk stack (.number (head :: more))).step d b =
      (deliver stack (.number value)).bind fun r => r.after d b := by
    simp only [Reader.step, hend, Bool.false_eq_true, if_false, hvalue, Option.bind_some]
  rw [List.cons_append, run_cons, hfirst, Option.bind_some,
    run_lexeme fun other hother => hnumeric other (List.mem_cons_of_mem _ hother), List.singleton_append, run_cons, hlast]
  cases hdeliver : deliver stack (.number value) with
  | none => rfl
  | some r => rw [Option.bind_some, Option.bind_some, run_cons, deliver_step hdeliver]

theorem reads_string {escape : UInt8 → Bytes} (hescape : Escapes escape) {message : Bytes}
    (hmessage : message.foldlM (textStep escape) .start = some .start) :
    Reads d (quote :: message.flatMap escape ++ [quote]) (.string message) := by
  intro stack closing b rest _
  have hopen : (Reader.mk stack (.value closing)).step d quote = some ⟨stack, .string false [] (.text .start)⟩ := rfl
  rw [List.cons_append, List.cons_append, run_cons, hopen, Option.bind_some, List.append_assoc, run_escaped hescape,
    hmessage, Option.bind_some, List.nil_append, List.singleton_append, run_quote, if_pos rfl]
  rfl

/-- A member as it is written. -/
structure Entry (N : Type) where
  key : Bytes
  text : Bytes
  value : Value N

def Entry.written (e : Entry N) : Bytes := quote :: e.key ++ quote :: colon :: e.text

def entriesWritten : List (Entry N) → Bytes
  | [] => []
  | [e] => e.written
  | e :: other :: more => e.written ++ comma :: entriesWritten (other :: more)

def objectWritten (entries : List (Entry N)) : Bytes := leftBrace :: entriesWritten entries ++ [rightBrace]

def Entry.pair (e : Entry N) : Bytes × Value N := (e.key, e.value)

def Entry.Faithful (d : Dialect N) (e : Entry N) : Prop := Plain e.key ∧ Reads d e.text e.value

theorem run_entry {e : Entry N} (hfaithful : e.Faithful d) {members : List (Bytes × Value N)} {closing : Bool}
    (hend : numeric b = false) (rest : Bytes) :
    (Reader.mk (.object members :: stack) (.key closing)).run d (e.written ++ b :: rest) =
      (Reader.mk (.object (members ++ [e.pair]) :: stack) .next).run d (b :: rest) := by
  have hsplit : e.written ++ b :: rest = quote :: e.key ++ quote :: colon :: (e.text ++ b :: rest) := by
    simp [Entry.written]
  rw [hsplit, run_key hfaithful.1, hfaithful.2 _ _ _ _ hend]
  rfl

theorem run_entries {e : Entry N} {more : List (Entry N)} (hfaithful : ∀ entry ∈ e :: more, entry.Faithful d)
    {members : List (Bytes × Value N)} {closing : Bool} (rest : Bytes) :
    (Reader.mk (.object members :: stack) (.key closing)).run d (entriesWritten (e :: more) ++ rightBrace :: rest) =
      (deliver stack (.object (members ++ (e :: more).map Entry.pair))).bind fun r => r.run d rest := by
  induction more generalizing e members closing with
  | nil =>
    rw [entriesWritten, run_entry (hfaithful e List.mem_cons_self) rfl, run_cons]
    rfl
  | cons other more ih =>
    have hcomma : (Reader.mk (.object (members ++ [e.pair]) :: stack) .next).step d comma =
        some ⟨.object (members ++ [e.pair]) :: stack, .key false⟩ := rfl
    rw [entriesWritten, List.append_assoc, List.cons_append, run_entry (hfaithful e List.mem_cons_self) rfl, run_cons,
      hcomma, Option.bind_some, ih fun entry hentry => hfaithful entry (List.mem_cons_of_mem _ hentry),
      List.append_assoc, List.singleton_append, List.map_cons (l := other :: more)]

/-- The reader gives back the object that was written. -/
theorem reads_object {entries : List (Entry N)} (hsome : entries ≠ []) (hfaithful : ∀ e ∈ entries, e.Faithful d)
    (stack : List (Frame N)) (closing : Bool) (rest : Bytes) : (Reader.mk stack (.value closing)).run d (objectWritten entries ++ rest) =
      (deliver stack (.object (entries.map Entry.pair))).bind fun r => r.run d rest := by
  obtain ⟨e, more, rfl⟩ := List.exists_cons_of_ne_nil hsome
  have hopen : (Reader.mk stack (.value closing)).step d leftBrace = some ⟨.object [] :: stack, .key true⟩ := rfl
  rw [objectWritten, List.cons_append, List.cons_append, run_cons, hopen, Option.bind_some, List.append_assoc,
    List.singleton_append, run_entries hfaithful, List.nil_append]

theorem document_object {entries : List (Entry N)} (hsome : entries ≠ []) (hfaithful : ∀ e ∈ entries, e.Faithful d) :
    document d (objectWritten entries) = some (.object (entries.map Entry.pair)) := by
  have hread := reads_object hsome hfaithful [] false []
  rw [List.append_nil] at hread
  rw [document, start, hread]
  rfl

theorem not_mem_written {e : Entry N} (hkey : b ∉ e.key) (htext : b ∉ e.text) (hquote : b ≠ quote) (hcolon : b ≠ colon) :
    b ∉ e.written := by
  simp only [Entry.written, List.cons_append, List.mem_cons, List.mem_append, not_or]
  exact ⟨hquote, hkey, hquote, hcolon, htext⟩

theorem not_mem_objectWritten {entries : List (Entry N)} (hentries : ∀ e ∈ entries, b ∉ e.written) (hcomma : b ≠ comma)
    (hopen : b ≠ leftBrace) (hclose : b ≠ rightBrace) : b ∉ objectWritten entries := by
  have hall : b ∉ entriesWritten entries := by
    induction entries with
    | nil => simp [entriesWritten]
    | cons e more ih =>
      cases more with
      | nil => exact hentries e List.mem_cons_self
      | cons other more =>
        have hrest := ih fun entry hentry => hentries entry (List.mem_cons_of_mem _ hentry)
        simp only [entriesWritten, List.mem_append, List.mem_cons, not_or] at hrest ⊢
        exact ⟨hentries e List.mem_cons_self, hcomma, hrest⟩
  simp only [objectWritten, List.cons_append, List.mem_cons, List.mem_append, not_or]
  exact ⟨hopen, hall, hclose, List.not_mem_nil⟩

theorem run_unescaped {escape : UInt8 → Bytes} (hescape : Escapes escape) {message : Bytes}
    (hmessage : message.foldlM (textStep escape) .start ≠ some .start) (closing : Bool) (rest : Bytes) :
    (Reader.mk stack (.value closing)).run d (quote :: message.flatMap escape ++ quote :: rest) = none := by
  have hopen : (Reader.mk stack (.value closing)).step d quote = some ⟨stack, .string false [] (.text .start)⟩ := rfl
  rw [List.cons_append, run_cons, hopen, Option.bind_some, run_escaped hescape]
  cases hread : message.foldlM (textStep escape) .start with
  | none => rfl
  | some q =>
    have hinside : q ≠ .start := fun heq => hmessage (by rw [hread, heq])
    rw [Option.bind_some, run_quote, if_neg hinside]

/-- A member that cannot be read, if it is the first such member of an object. -/
theorem run_broken (front more : List (Entry N)) {bad : Entry N} (hfront : ∀ e ∈ front, e.Faithful d)
    (hbad : ∀ members closing rest, (Reader.mk (.object members :: stack) (.key closing)).run d (bad.written ++ rest) = none)
    (members : List (Bytes × Value N)) (closing : Bool) (rest : Bytes) :
    (Reader.mk (.object members :: stack) (.key closing)).run d (entriesWritten (front ++ bad :: more) ++ rest) = none := by
  induction front generalizing members closing with
  | nil =>
    cases more with
    | nil => exact hbad members closing rest
    | cons other more =>
      rw [List.nil_append, entriesWritten, List.append_assoc]
      exact hbad members closing _
  | cons e front ih =>
    have hstep : (Reader.mk (.object (members ++ [e.pair]) :: stack) .next).step d comma =
        some ⟨.object (members ++ [e.pair]) :: stack, .key false⟩ := rfl
    obtain ⟨other, others, hcons⟩ := List.exists_cons_of_ne_nil (List.append_ne_nil_of_right_ne_nil front (List.cons_ne_nil bad more))
    rw [List.cons_append, hcons, entriesWritten, List.append_assoc, List.cons_append,
      run_entry (hfront e List.mem_cons_self) rfl, run_cons, hstep, Option.bind_some, ← hcons]
    exact ih (fun entry hentry => hfront entry (List.mem_cons_of_mem _ hentry)) _ _

theorem document_broken (front more : List (Entry N)) {bad : Entry N} (hfront : ∀ e ∈ front, e.Faithful d)
    (hbad : ∀ members closing rest,
      (Reader.mk [.object members] (.key closing)).run d (bad.written ++ rest) = none) :
    document d (objectWritten (front ++ bad :: more)) = none := by
  have hopen : (start : Reader N).step d leftBrace = some ⟨[.object []], .key true⟩ := rfl
  rw [document, objectWritten, List.cons_append, run_cons, hopen, Option.bind_some, run_broken front more hfront hbad]
  rfl

/-! ## A text that something stands in front of -/

/-- Nothing but blanks has been read. -/
def Fresh (r : Reader N) : Prop := r.stack = [] ∧ ∃ closing, r.mode = .value closing

theorem deliver_mode {value : Value N} {r : Reader N} (hdeliver : deliver stack value = some r) :
    (stack ≠ [] ∧ r.mode = .next) ∨ (stack = [] ∧ r.mode = .done value) := by
  cases stack with
  | nil =>
    obtain rfl := Option.some.inj hdeliver
    exact Or.inr ⟨rfl, rfl⟩
  | cons frame stack =>
    cases frame with
    | array items =>
      obtain rfl := Option.some.inj hdeliver
      exact Or.inl ⟨List.cons_ne_nil _ _, rfl⟩
    | object members => exact absurd hdeliver (by simp [deliver])
    | member members key =>
      obtain rfl := Option.some.inj hdeliver
      exact Or.inl ⟨List.cons_ne_nil _ _, rfl⟩

theorem deliver_not_fresh {value : Value N} {r : Reader N} (hdeliver : deliver stack value = some r) : ¬Fresh r := by
  rintro ⟨-, closing, hmode⟩
  obtain ⟨-, hnext⟩ | ⟨-, hdone⟩ := deliver_mode hdeliver
  · exact absurd (hmode.symm.trans hnext) (by simp)
  · exact absurd (hmode.symm.trans hdone) (by simp)

theorem close_not_fresh {r : Reader N} (hclose : close b stack = some r) : ¬Fresh r := by
  cases stack with
  | nil => exact absurd hclose (by simp [close])
  | cons frame stack =>
    cases frame with
    | array items =>
      obtain ⟨-, hdeliver⟩ := Option.ite_none_right_eq_some.mp hclose
      exact deliver_not_fresh hdeliver
    | object members =>
      obtain ⟨-, hdeliver⟩ := Option.ite_none_right_eq_some.mp hclose
      exact deliver_not_fresh hdeliver
    | member members key => exact absurd hclose (by simp [close])

theorem separate_not_fresh {r : Reader N} (hseparate : separate stack = some r) : ¬Fresh r := by
  rintro ⟨hstack, -⟩
  cases stack with
  | nil => exact absurd hseparate (by simp [separate])
  | cons frame stack =>
    cases frame with
    | array items =>
      obtain rfl := Option.some.inj hseparate
      exact absurd hstack (by simp)
    | object members =>
      obtain rfl := Option.some.inj hseparate
      exact absurd hstack (by simp)
    | member members key => exact absurd hseparate (by simp [separate])

theorem name_not_fresh {key : Bytes} {r : Reader N} (hname : name key stack = some r) : ¬Fresh r := by
  rintro ⟨hstack, -⟩
  cases stack with
  | nil => exact absurd hname (by simp [name])
  | cons frame stack =>
    cases frame with
    | array items => exact absurd hname (by simp [name])
    | object members =>
      obtain rfl := Option.some.inj hname
      exact absurd hstack (by simp)
    | member members key => exact absurd hname (by simp [name])

theorem after_not_fresh {r r' : Reader N} (hafter : r.after d b = some r') : ¬Fresh r' := by
  rintro hfresh
  obtain ⟨stack, mode⟩ := r
  cases mode with
  | next =>
    simp only [Reader.after] at hafter
    split_ifs at hafter
    · obtain rfl := Option.some.inj hafter
      exact absurd hfresh.2 (by simp)
    · exact separate_not_fresh hafter hfresh
    · exact close_not_fresh hafter hfresh
  | done value =>
    simp only [Reader.after] at hafter
    split_ifs at hafter
    · obtain rfl := Option.some.inj hafter
      exact absurd hfresh.2 (by simp)
    · obtain rfl := Option.some.inj hafter
      exact absurd hfresh.2 (by simp)
  | ended value =>
    obtain rfl := Option.some.inj hafter
    exact absurd hfresh.2 (by simp)
  | value closing => exact absurd hafter (by simp [Reader.after])
  | key closing => exact absurd hafter (by simp [Reader.after])
  | colon key => exact absurd hafter (by simp [Reader.after])
  | string isKey text inside => exact absurd hafter (by simp [Reader.after])
  | number lexeme => exact absurd hafter (by simp [Reader.after])
  | literal word read => exact absurd hafter (by simp [Reader.after])

theorem first_fresh {r r' : Reader N} {closing : Bool} (hfirst : r.first closing b = some r') (hfresh : Fresh r') :
    r' = r ∧ blank b = true := by
  simp only [Reader.first] at hfirst
  split_ifs at hfirst with hblank
  · exact ⟨(Option.some.inj hfirst).symm, hblank⟩
  all_goals
    first
    | exact absurd hfresh (close_not_fresh hfirst)
    | obtain rfl := Option.some.inj hfirst
      exact absurd hfresh (by simp [Fresh])

theorem step_fresh {r r' : Reader N} (hstep : r.step d b = some r') (hfresh : Fresh r') : Fresh r ∧ blank b = true := by
  obtain ⟨stack, mode⟩ := r
  cases mode with
  | value closing =>
    obtain ⟨rfl, hblank⟩ := first_fresh hstep hfresh
    exact ⟨hfresh, hblank⟩
  | key closing =>
    simp only [Reader.step] at hstep
    split_ifs at hstep
    · obtain rfl := Option.some.inj hstep
      exact absurd hfresh.2 (by simp)
    · obtain rfl := Option.some.inj hstep
      exact absurd hfresh.2 (by simp)
    · exact absurd hfresh (close_not_fresh hstep)
  | colon key =>
    simp only [Reader.step] at hstep
    split_ifs at hstep
    · obtain rfl := Option.some.inj hstep
      exact absurd hfresh.2 (by simp)
    · exact absurd hfresh (name_not_fresh hstep)
  | string isKey text inside =>
    simp only [Reader.step, endString] at hstep
    split_ifs at hstep
    · obtain rfl := Option.some.inj hstep
      exact absurd hfresh.2 (by simp)
    · exact absurd hfresh (deliver_not_fresh hstep)
    · obtain ⟨more, -, rfl⟩ := Option.map_eq_some_iff.mp hstep
      exact absurd hfresh.2 (by simp)
  | number lexeme =>
    simp only [Reader.step] at hstep
    split_ifs at hstep
    · obtain rfl := Option.some.inj hstep
      exact absurd hfresh.2 (by simp)
    · obtain ⟨value, -, hvalue⟩ := Option.bind_eq_some_iff.mp hstep
      obtain ⟨mid, -, hafter⟩ := Option.bind_eq_some_iff.mp hvalue
      exact absurd hfresh (after_not_fresh hafter)
  | literal word read =>
    simp only [Reader.step] at hstep
    split_ifs at hstep
    · exact absurd hfresh (deliver_not_fresh hstep)
    · obtain rfl := Option.some.inj hstep
      exact absurd hfresh.2 (by simp)
  | next =>
    have hafter : (Reader.mk stack .next).after d b = some r' := hstep
    exact absurd hfresh (after_not_fresh hafter)
  | done value =>
    have hafter : (Reader.mk stack (.done value)).after d b = some r' := hstep
    exact absurd hfresh (after_not_fresh hafter)
  | ended value =>
    have hafter : (Reader.mk stack (.ended value)).after d b = some r' := hstep
    exact absurd hfresh (after_not_fresh hafter)

theorem run_fresh {text : Bytes} {r r' : Reader N} (hrun : r.run d text = some r') (hfresh : Fresh r') :
    ∀ b ∈ text, blank b = true := by
  induction text using List.reverseRecOn generalizing r' with
  | nil => simp
  | append_singleton text b ih =>
    rw [run_append, Option.bind_eq_some_iff] at hrun
    obtain ⟨mid, hfront, hlast⟩ := hrun
    rw [run_cons, Option.bind_eq_some_iff] at hlast
    obtain ⟨last, hstep, hnone⟩ := hlast
    obtain rfl := Option.some.inj hnone
    obtain ⟨hmid, hblank⟩ := step_fresh hstep hfresh
    intro other hother
    obtain hmem | hmem := List.mem_append.mp hother
    · exact ih hfront hmid other hmem
    · rw [List.mem_singleton.mp hmem]
      exact hblank

theorem run_blanks {text : Bytes} (hblank : ∀ b ∈ text, blank b = true) : (start : Reader N).run d text = some start := by
  induction text with
  | nil => rfl
  | cons b text ih =>
    have hstep : (start : Reader N).step d b = some start := if_pos (hblank b List.mem_cons_self)
    rw [run_cons, hstep, Option.bind_some, ih fun other hother => hblank other (List.mem_cons_of_mem _ hother)]

theorem document_blanks {front : Bytes} (hblank : ∀ b ∈ front, blank b = true) (text : Bytes) :
    document d (front ++ text) = document d text := by
  rw [document, run_append, run_blanks hblank, Option.bind_some]
  rfl

/-- A byte that goes on with nothing that has been read: neither blank, nor one of the signs between values. -/
def Foreign (d : Dialect N) (b : UInt8) : Prop :=
  blank b = false ∧ b ≠ comma ∧ b ≠ colon ∧ b ≠ rightBracket ∧ b ≠ rightBrace ∧ d.ends b = false

theorem close_foreign (hforeign : Foreign d b) (stack : List (Frame N)) : close b stack = none := by
  obtain ⟨-, -, -, hbracket, hbrace, -⟩ := hforeign
  cases stack with
  | nil => rfl
  | cons frame stack =>
    cases frame with
    | array items => exact if_neg hbracket
    | object members => exact if_neg hbrace
    | member members key => rfl

theorem after_foreign (hforeign : Foreign d b) {r : Reader N} (hopen : ∀ value, r.mode ≠ .ended value) :
    r.after d b = none := by
  obtain ⟨stack, mode⟩ := r
  have hclose := close_foreign hforeign stack
  obtain ⟨hblank, hcomma, -, -, -, hends⟩ := hforeign
  cases mode with
  | next => simp only [Reader.after, hblank, Bool.false_eq_true, if_false, if_neg hcomma, hclose]
  | done value => simp only [Reader.after, hblank, hends, Bool.false_eq_true, if_false]
  | ended value => exact absurd rfl (hopen value)
  | value closing => rfl
  | key closing => rfl
  | colon key => rfl
  | string isKey text inside => rfl
  | number lexeme => rfl
  | literal word read => rfl

theorem deliver_foreign (hforeign : Foreign d b) (stack : List (Frame N)) (value : Value N) :
    (deliver stack value).bind (fun r => r.after d b) = none := by
  cases hdeliver : deliver stack value with
  | none => rfl
  | some r =>
    refine after_foreign hforeign fun other hended => ?_
    obtain ⟨-, hnext⟩ | ⟨-, hdone⟩ := deliver_mode hdeliver
    · exact absurd (hended.symm.trans hnext) (by simp)
    · exact absurd (hended.symm.trans hdone) (by simp)

theorem endString_foreign (hforeign : Foreign d b) (text more : Bytes) (isKey : Bool) :
    (endString text isKey stack).bind (fun r => r.run d (b :: more)) = none := by
  cases isKey with
  | true =>
    have hstep : (Reader.mk stack (.colon text)).step d b = none := by
      simp only [Reader.step, hforeign.1, Bool.false_eq_true, if_false, if_neg hforeign.2.2.1]
    have hrun : (Reader.mk stack (.colon text)).run d (b :: more) = none := by
      rw [run_cons, hstep]
      rfl
    exact hrun
  | false =>
    have hnone := deliver_foreign hforeign stack (.string text)
    cases hdeliver : deliver stack (.string text) with
    | none => simp only [endString, Bool.false_eq_true, if_false, hdeliver, Option.bind_none]
    | some r =>
      rw [hdeliver, Option.bind_some] at hnone
      simp only [endString, Bool.false_eq_true, if_false, hdeliver, Option.bind_some]
      rw [run_cons, deliver_step hdeliver, hnone]
      rfl

theorem inside_leftBrace {inside : Inside} (hinside : inside ≠ .text .start) : inside.step leftBrace = none := by
  cases inside with
  | text q =>
    have hq : q ≠ .start := fun heq => hinside (congrArg _ heq)
    have hstep := Utf8.step_inside (b := leftBrace) hq (by decide)
    simp only [Inside.step, hstep]
    rfl
  | escape => rfl
  | unicode high count value => rfl
  | lowAwaited high => rfl
  | lowEscape high => rfl

/-- Between the quotes of a string an object breaks off behind the quote of its first key. -/
theorem run_inside {isKey : Bool} {text more : Bytes} {inside : Inside} (hforeign : Foreign d b) :
    (Reader.mk stack (.string isKey text inside)).run d (leftBrace :: quote :: b :: more) = none := by
  by_cases hinside : inside = .text .start
  · have hbrace : (Inside.text .start).step leftBrace = some ([leftBrace], .text .start) := rfl
    rw [hinside, run_cons, step_string hbrace, Option.bind_some, run_quote, if_pos rfl]
    exact endString_foreign hforeign _ _ _
  · have hstep : (Reader.mk stack (.string isKey text inside)).step d leftBrace = none := by
      have hopen : ¬(inside = .text .start ∧ leftBrace = quote) := fun h => hinside h.1
      simp only [Reader.step, if_neg hopen, inside_leftBrace hinside, Option.map_none]
    rw [run_cons, hstep]
    rfl

theorem run_ended {last : Value N} (text : Bytes) :
    (Reader.mk stack (.ended last)).run d text = some ⟨stack, .ended last⟩ := by
  induction text with
  | nil => rfl
  | cons b text ih => exact ih

/-- Behind anything but blanks an object is never read: either nothing is, or what stood in front of it was a document
that had ended. -/
theorem document_behind {front : Bytes} {e : Entry N} {more : List (Entry N)} {key : Bytes}
    (hfront : ∃ b ∈ front, blank b = false) (hfaithful : ∀ entry ∈ e :: more, entry.Faithful d) (hkey : e.key = b :: key)
    (hletter : Foreign d b) (hbrace : Foreign d leftBrace) {value : Value N}
    (hvalue : document d (front ++ objectWritten (e :: more)) = some value) : document d front = some value := by
  rw [document, run_append] at hvalue
  rw [document]
  cases hread : (start : Reader N).run d front with
  | none =>
    rw [hread] at hvalue
    exact absurd hvalue (by simp)
  | some r =>
    rw [hread, Option.bind_some] at hvalue
    rw [Option.bind_some]
    obtain ⟨tail, htail⟩ : ∃ tail, objectWritten (e :: more) = leftBrace :: quote :: b :: tail := by
      cases more with
      | nil => exact ⟨_, by simp [objectWritten, entriesWritten, Entry.written, hkey]; rfl⟩
      | cons other others => exact ⟨_, by simp [objectWritten, entriesWritten, Entry.written, hkey]; rfl⟩
    have hbroken : r.step d leftBrace = none → r.finish d = some value := by
      intro hnone
      rw [htail, run_cons, hnone] at hvalue
      exact absurd hvalue (by simp)
    obtain ⟨stack, mode⟩ := r
    cases mode with
    | value closing =>
      have hstack : stack ≠ [] := by
        rintro rfl
        obtain ⟨other, hother, hshown⟩ := hfront
        have hblank := run_fresh hread ⟨rfl, closing, rfl⟩ other hother
        exact absurd (hblank.symm.trans hshown) (by simp)
      have hobject := reads_object (List.cons_ne_nil e more) hfaithful stack closing []
      rw [List.append_nil] at hobject
      rw [hobject] at hvalue
      obtain ⟨r, hrun, hfinish⟩ := Option.bind_eq_some_iff.mp hvalue
      obtain ⟨mid, hdeliver, hnil⟩ := Option.bind_eq_some_iff.mp hrun
      obtain rfl := Option.some.inj hnil
      obtain ⟨-, hnext⟩ | ⟨hempty, -⟩ := deliver_mode hdeliver
      · exact absurd hfinish (by simp [Reader.finish, hnext])
      · exact absurd hempty hstack
    | key closing =>
      refine hbroken ?_
      have hquote : leftBrace ≠ quote := by decide
      simp only [Reader.step, hbrace.1, Bool.false_eq_true, if_false, if_neg hquote, close_foreign hbrace, ite_self]
    | colon key => exact hbroken rfl
    | string isKey text inside =>
      rw [htail, run_inside hletter] at hvalue
      exact absurd hvalue (by simp)
    | number lexeme =>
      refine hbroken ?_
      have hend : numeric leftBrace = false := rfl
      simp only [Reader.step, hend, Bool.false_eq_true, if_false]
      cases d.number lexeme with
      | none => rfl
      | some value => exact deliver_foreign hbrace stack _
    | literal word read =>
      refine hbroken ?_
      have hletters : word.letters[read]? ≠ some leftBrace := by
        intro hsome
        have hmem := List.mem_of_getElem? hsome
        cases word with
        | true => exact absurd hmem (by decide)
        | false => exact absurd hmem (by decide)
        | null => exact absurd hmem (by decide)
      exact if_neg hletters
    | next =>
      have hafter : (Reader.mk stack .next).after d leftBrace = none := after_foreign hbrace (by simp)
      exact hbroken hafter
    | done last =>
      have hafter : (Reader.mk stack (.done last)).after d leftBrace = none := after_foreign hbrace (by simp)
      exact hbroken hafter
    | ended last =>
      rw [run_ended] at hvalue
      exact hvalue

end Sunshine.Json
