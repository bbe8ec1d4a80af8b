import Sunshine.Session.HistoryFile

/-! What `recent` reads of the lines that `record` has written.

A record whose strings are UTF-8 and whose averages are finite comes back as it was. What stands in the file before does
not matter, as long as its last line is complete: a line that is not, because a write broke off, swallows the record that
is appended to it, unless there is nothing but blanks on it. -/
namespace Sunshine.SessionHistory
open Json Texts
set_option autoImplicit false

variable {D : Type} {f : Doubles D} {r : Record D} {b : UInt8}

/-! ## Fields -/

theorem escapes : Escapes dumpByte := by
  have hcontrol : ∀ n : Fin 32, Inside.escape.run (ascii "u00" ++ [hexChar (n / 16), hexChar (n % 16)]) =
      some ([UInt8.ofNat n], .text .start) := by decide
  intro b
  unfold dumpByte
  split_ifs with hbackspace htab hnewline hfeed hreturn hquote hbackslash hlow
  · exact Or.inr ⟨by rw [hbackspace]; decide, [98], rfl, by rw [hbackspace]; rfl⟩
  · exact Or.inr ⟨by rw [htab]; decide, [116], rfl, by rw [htab]; rfl⟩
  · exact Or.inr ⟨by rw [hnewline]; decide, [110], rfl, by rw [hnewline]; rfl⟩
  · exact Or.inr ⟨by rw [hfeed]; decide, [102], rfl, by rw [hfeed]; rfl⟩
  · exact Or.inr ⟨by rw [hreturn]; decide, [114], rfl, by rw [hreturn]; rfl⟩
  · exact Or.inr ⟨by rw [hquote]; decide, [quote], rfl, by rw [hquote]; rfl⟩
  · exact Or.inr ⟨by rw [hbackslash]; decide, [backslash], rfl, by rw [hbackslash]; rfl⟩
  · have hread := hcontrol ⟨b.toNat, hlow⟩
    rw [UInt8.ofNat_toNat] at hread
    exact Or.inr ⟨by omega, _, rfl, hread⟩
  · exact Or.inl ⟨rfl, hquote, hbackslash⟩

def shown (text : Bytes) : Bool := text.all fun c => 0x20 ≤ c.toNat

/-- No control character is written as it is. -/
theorem dumpByte_shown (b : UInt8) : shown (dumpByte b) = true := by
  have hcontrol : ∀ n : Fin 32, shown (ascii "\\u00" ++ [hexChar (n / 16), hexChar (n % 16)]) = true := by decide
  unfold dumpByte
  split_ifs with hbackspace htab hnewline hfeed hreturn hquote hbackslash hlow
  · rfl
  · rfl
  · rfl
  · rfl
  · rfl
  · rfl
  · rfl
  · exact hcontrol ⟨b.toNat, hlow⟩
  · simpa [shown] using hlow

theorem dumpByte_low {c : UInt8} (hmem : c ∈ dumpByte b) : 0x20 ≤ c.toNat :=
  of_decide_eq_true (List.all_eq_true.mp (dumpByte_shown b) c hmem)

theorem admitted_iff (s : Bytes) : s.foldlM (textStep dumpByte) .start = some .start ↔ Utf8.Valid s := by
  rw [foldlM_admit_iff]
  refine ⟨fun h => h.2, fun h => ⟨fun b _ hself => ?_, h⟩⟩
  exact dumpByte_low (b := b) (hself ▸ List.mem_singleton_self b)

/-- An integer of the line has 64 bits. -/
def Field.Fits : Field D → Prop
  | .int z => -9223372036854775808 ≤ z ∧ z < 18446744073709551616
  | _ => True

theorem integer_not_fractional (z : ℤ) : fractional (integer z) = false := by
  rw [fractional, List.any_eq_false]
  intro b hmem
  have hother : ∀ other : UInt8, isDigit other = false → other ≠ 45 → b ≠ other := by
    rintro other hdigit hsign rfl
    obtain rfl | hisDigit := mem_integer hmem
    · exact hsign rfl
    · exact absurd (hisDigit.symm.trans hdigit) (by simp)
  simp [hother 46 rfl (by decide), hother 69 rfl (by decide), hother 101 rfl (by decide)]

theorem scanNumber_integer {z : ℤ} (hlow : -9223372036854775808 ≤ z) (hhigh : z < 18446744073709551616) :
    scanNumber f (integer z) = some (if z < 0 then .integer z else .unsigned z.natAbs) := by
  have hnumeral := numeral_integer z
  have hwhole := integer_not_fractional z
  have hvalue := integerValue_integer z
  simp only [scanNumber, hnumeral, hwhole, not_true, if_false, Bool.false_eq_true]
  by_cases hneg : z < 0
  · have hhead : (integer z).head? = some 45 := by rw [integer, if_pos hneg, List.head?_cons]
    rw [if_pos hhead, hvalue, if_pos hlow, if_pos hneg]
  · have hnatural : integer z = natural z.natAbs := by rw [integer, if_neg hneg]
    rw [hnatural, if_neg (natural_unsigned _), naturalValue_natural, if_pos (by omega), if_neg hneg]

theorem reads_null : Reads (dialect f) (ascii "null") .null := fun _ _ _ _ _ => rfl

theorem reads_field (hf : f.Lawful) {field : Field D} (hfits : field.Fits) {text : Bytes} (hdump : field.dump f = some text) :
    Reads (dialect f) text (field.value f) := by
  cases field with
  | int z =>
    obtain rfl := Option.some.inj hdump
    exact reads_number (integer_ne_nil z) (numeric_numeral (numeral_integer z)) (scanNumber_integer hfits.1 hfits.2)
  | double x =>
    obtain rfl := Option.some.inj hdump
    cases hx : f.dump x with
    | none =>
      simp only [Field.value, hx]
      exact reads_null
    | some text =>
      have hnumeral := hf.numeral x text hx
      simp only [Field.value, hx]
      refine reads_number (numeral_ne_nil hnumeral) (numeric_numeral hnumeral) ?_
      have hread : scanNumber f text = some (.float x) := by
        simp only [scanNumber, hnumeral, hf.fractional x text hx, hf.round x text hx, not_true, if_false, if_true,
          Option.map_some]
      exact hread
  | string s =>
    obtain ⟨hvalid, heq⟩ := Option.ite_none_right_eq_some.mp hdump
    obtain rfl := Option.some.inj heq
    exact reads_string escapes ((admitted_iff s).mpr hvalid)

/-- What is written stays on one line. -/
theorem dump_one_line (hf : f.Lawful) {field : Field D} {text : Bytes} (hdump : field.dump f = some text) :
    newline ∉ text := by
  have hnumeric : ∀ text : Bytes, (∀ b ∈ text, numeric b = true) → newline ∉ text :=
    fun text hall hmem => absurd (hall newline hmem) (by decide)
  cases field with
  | int z =>
    obtain rfl := Option.some.inj hdump
    exact hnumeric _ (numeric_numeral (numeral_integer z))
  | double x =>
    obtain rfl := Option.some.inj hdump
    cases hx : f.dump x with
    | none => exact (by decide : newline ∉ ascii "null")
    | some text => exact hnumeric _ (numeric_numeral (hf.numeral x text hx))
  | string s =>
    obtain ⟨-, heq⟩ := Option.ite_none_right_eq_some.mp hdump
    obtain rfl := Option.some.inj heq
    simp only [List.cons_append, List.mem_cons, List.mem_append, List.mem_flatMap, not_or]
    refine ⟨by decide, ?_, by decide, List.not_mem_nil⟩
    rintro ⟨b, -, hmem⟩
    exact absurd (dumpByte_low hmem) (by decide)

/-! ## Lines -/

theorem seconds_fit (t : Int64) : (Field.int (seconds t) : Field D).Fits := by
  have hlow := t.le_toInt
  have hhigh := t.toInt_lt
  have hsmall := Int.natAbs_tdiv_le_natAbs t.toInt (10 ^ 9)
  simp only [Field.Fits, seconds, Session.seconds]
  omega

theorem int_fits (n : Int32) : (Field.int n.toInt : Field D).Fits := by
  have hlow := n.le_toInt
  have hhigh := n.toInt_lt
  simp only [Field.Fits]
  omega

theorem count_fits (n : UInt64) : (Field.int n.toNat : Field D).Fits := by
  have hhigh := n.toNat_lt
  simp only [Field.Fits]
  omega

theorem members_fit (r : Record D) : ∀ member ∈ members r, member.2.Fits := by
  simp only [members, List.forall_mem_cons]
  exact ⟨trivial, trivial, trivial, trivial, trivial, trivial, trivial, count_fits _, trivial, int_fits _, int_fits _,
    seconds_fit _, seconds_fit _, int_fits _, List.forall_mem_nil _⟩

theorem members_plain (r : Record D) : ∀ member ∈ members r, Plain member.1 := by
  have hnames : (members r).map Prod.fst = ["app_name", "avg_bitrate_kbps", "avg_encode_ms", "avg_rtt_ms", "client_address",
      "client_name", "codec", "dropped_frames", "error", "fps", "height", "t_end", "t_start", "width"].map ascii := rfl
  have hplain : ∀ name ∈ ["app_name", "avg_bitrate_kbps", "avg_encode_ms", "avg_rtt_ms", "client_address", "client_name",
      "codec", "dropped_frames", "error", "fps", "height", "t_end", "t_start", "width"].map ascii, Plain name := by
    decide +kernel
  intro member hmember
  exact hplain _ (hnames ▸ List.mem_map_of_mem hmember)

/-- The strings of a record can be written. -/
def Writable (r : Record D) : Prop :=
  Utf8.Valid r.appName ∧ Utf8.Valid r.clientName ∧ Utf8.Valid r.clientAddress ∧ Utf8.Valid r.codec ∧ Utf8.Valid r.error

def Finite (f : Doubles D) (r : Record D) : Prop :=
  (f.dump r.avgBitrateKbps).isSome ∧ (f.dump r.avgRttMs).isSome ∧ (f.dump r.avgEncodeMs).isSome

theorem dumpMembers_isSome (l : List (Bytes × Field D)) :
    (l.mapM (dumpMember f)).isSome ↔ ∀ member ∈ l, (member.2.dump f).isSome := by
  induction l with
  | nil => simp
  | cons member l ih =>
    rw [List.mapM_cons, List.forall_mem_cons, ← ih]
    cases hfirst : member.2.dump f with
    | none => simp [dumpMember, hfirst]
    | some text => cases hrest : l.mapM (dumpMember f) <;> simp [dumpMember, hfirst]

theorem string_isSome (s : Bytes) : ((Field.string s).dump f).isSome ↔ Utf8.Valid s := by
  by_cases hvalid : Utf8.Valid s
  · simp [Field.dump, hvalid]
  · simp [Field.dump, hvalid]

theorem writable_iff (r : Record D) : (dumpLine f r).isSome ↔ Writable r := by
  have hint : ∀ z : ℤ, ((Field.int z).dump f).isSome := fun _ => rfl
  have hdouble : ∀ x : D, ((Field.double x).dump f).isSome := fun _ => rfl
  rw [dumpLine, Option.isSome_map, dumpMembers_isSome]
  simp only [members, List.forall_mem_cons, string_isSome, hint, hdouble, true_and, Writable]
  constructor
  · rintro ⟨happ, haddress, hclient, hcodec, herror, -⟩
    exact ⟨happ, hclient, haddress, hcodec, herror⟩
  · rintro ⟨happ, hclient, haddress, hcodec, herror⟩
    exact ⟨happ, haddress, hclient, hcodec, herror, List.forall_mem_nil _⟩

/-- An object of the members of a record. -/
def lineValue (f : Doubles D) (r : Record D) : Value (Number D) :=
  .object ((members r).map fun member => (member.1, member.2.value f))

theorem dumpMembers_eq {l : List (Bytes × Field D)} {entries : List (Entry (Number D))}
    (hdump : l.mapM (dumpMember f) = some entries) :
    entries.map Entry.pair = l.map (fun member => (member.1, member.2.value f)) ∧
      ∀ e ∈ entries, ∃ member ∈ l, dumpMember f member = some e := by
  induction l generalizing entries with
  | nil =>
    obtain rfl := Option.some.inj hdump
    exact ⟨rfl, List.forall_mem_nil _⟩
  | cons member l ih =>
    rw [List.mapM_cons] at hdump
    obtain ⟨e, hfirst, hmore⟩ := Option.bind_eq_some_iff.mp hdump
    obtain ⟨more, hrest, heq⟩ := Option.bind_eq_some_iff.mp hmore
    obtain rfl := Option.some.inj heq
    obtain ⟨hpairs, hsources⟩ := ih hrest
    have hpair : e.pair = (member.1, member.2.value f) := by
      obtain ⟨text, -, rfl⟩ := Option.map_eq_some_iff.mp hfirst
      rfl
    refine ⟨by rw [List.map_cons, List.map_cons, hpair, hpairs], List.forall_mem_cons.mpr ⟨?_, fun other hother => ?_⟩⟩
    · exact ⟨member, List.mem_cons_self, hfirst⟩
    · obtain ⟨source, hmem, hsource⟩ := hsources other hother
      exact ⟨source, List.mem_cons_of_mem _ hmem, hsource⟩

theorem dumpMember_faithful (hf : f.Lawful) {member : Bytes × Field D} (hmem : member ∈ members r)
    {e : Entry (Number D)} (hdump : dumpMember f member = some e) : e.Faithful (dialect f) ∧ newline ∉ e.written := by
  have hplain := members_plain r member hmem
  obtain ⟨text, htext, rfl⟩ := Option.map_eq_some_iff.mp hdump
  refine ⟨⟨hplain, reads_field hf (members_fit r member hmem) htext⟩, ?_⟩
  refine not_mem_written (fun hkey => ?_) (dump_one_line hf htext) (by decide) (by decide)
  exact absurd (hplain newline hkey).2.2.1 (by decide)

/-- A line that has been written: an object on one line, whose first key is the application's. -/
theorem dumpLine_eq (hf : f.Lawful) {line : Bytes} (hdump : dumpLine f r = some line) :
    ∃ (e : Entry (Number D)) (more : List (Entry (Number D))), line = objectWritten (e :: more) ∧ e.key = ascii "app_name" ∧
      (∀ entry ∈ e :: more, entry.Faithful (dialect f)) ∧ newline ∉ line ∧
        Value.object ((e :: more).map Entry.pair) = lineValue f r := by
  obtain ⟨entries, hentries, rfl⟩ := Option.map_eq_some_iff.mp hdump
  obtain ⟨hpairs, hsources⟩ := dumpMembers_eq hentries
  have hfaithful : ∀ entry ∈ entries, entry.Faithful (dialect f) ∧ newline ∉ entry.written := by
    intro entry hentry
    obtain ⟨member, hmem, hmember⟩ := hsources entry hentry
    exact dumpMember_faithful hf hmem hmember
  cases entries with
  | nil => exact absurd hpairs (by simp [members])
  | cons e more =>
    have hkey : e.key = ascii "app_name" := congrArg Prod.fst (List.cons.inj hpairs).1
    refine ⟨e, more, rfl, hkey, fun entry hentry => (hfaithful entry hentry).1, ?_, congrArg _ hpairs⟩
    exact not_mem_objectWritten (fun entry hentry => (hfaithful entry hentry).2) (by decide) (by decide) (by decide)

instance (f : Doubles D) (r : Record D) : Decidable (Finite f r) := inferInstanceAs (Decidable (_ ∧ _ ∧ _))

/-- A record as it comes back. -/
def stored (r : Record D) : Record D :=
  { r with tStart := timePoint (seconds r.tStart), tEnd := timePoint (seconds r.tEnd) }

theorem getInteger_field (z : ℤ) : getInteger f ((Field.int z).value f) = some z := by
  by_cases hneg : z < 0
  · simp only [Field.value, if_pos hneg, getInteger, Number.toInt]
  · simp only [Field.value, if_neg hneg, getInteger, Number.toInt, Option.some.injEq]
    omega

theorem getDouble_field (x : D) : getDouble f ((Field.double x).value f) = if (f.dump x).isSome then some x else none := by
  by_cases hfinite : (f.dump x).isSome
  · simp only [Field.value, if_pos hfinite, getDouble, Number.toDouble]
  · simp only [Field.value, if_neg hfinite, getDouble]

theorem ofInt_count (n : UInt64) : UInt64.ofInt (n.toNat : ℤ) = n := by
  have hsmall : ((n.toNat : ℤ) % 2 ^ 64).toNat = n.toNat := by
    have hhigh := n.toNat_lt
    omega
  rw [UInt64.ofInt, hsmall, UInt64.ofNat_toNat]

/-- The time point that comes back is the second it was in. -/
theorem toInt_timePoint (t : Int64) : (timePoint (seconds t)).toInt = seconds t * 1000000000 := by
  have hlow := t.le_toInt
  have hhigh := t.toInt_lt
  have hsize : (seconds t).natAbs = t.toInt.natAbs / 1000000000 := Int.natAbs_tdiv t.toInt 1000000000
  exact Int64.toInt_ofInt_of_le (by omega) (by omega)

/-- A line whose averages are all numbers is read as its record, any other line is skipped. -/
theorem fromJson_line (r : Record D) : fromJson f (lineValue f r) = if Finite f r then some (stored r) else none := by
  have htStart : memberOr (lineValue f r) "t_start" (getInteger f) 0 = some (seconds r.tStart) := getInteger_field _
  have htEnd : memberOr (lineValue f r) "t_end" (getInteger f) 0 = some (seconds r.tEnd) := getInteger_field _
  have happ : memberOr (lineValue f r) "app_name" getString [] = some r.appName := rfl
  have hclient : memberOr (lineValue f r) "client_name" getString [] = some r.clientName := rfl
  have haddress : memberOr (lineValue f r) "client_address" getString [] = some r.clientAddress := rfl
  have hcodec : memberOr (lineValue f r) "codec" getString [] = some r.codec := rfl
  have hwidth : memberOr (lineValue f r) "width" (getInt f) 0 = some r.width.toInt := getInteger_field _
  have hheight : memberOr (lineValue f r) "height" (getInt f) 0 = some r.height.toInt := getInteger_field _
  have hfps : memberOr (lineValue f r) "fps" (getInt f) 0 = some r.fps.toInt := getInteger_field _
  have hdropped : memberOr (lineValue f r) "dropped_frames" (getInteger f) 0 = some (r.droppedFrames.toNat : ℤ) :=
    getInteger_field _
  have herror : memberOr (lineValue f r) "error" getString [] = some r.error := rfl
  have hbitrate : memberOr (lineValue f r) "avg_bitrate_kbps" (getDouble f) (f.ofInt 0) =
      if (f.dump r.avgBitrateKbps).isSome then some r.avgBitrateKbps else none := getDouble_field _
  have hrtt : memberOr (lineValue f r) "avg_rtt_ms" (getDouble f) (f.ofInt 0) =
      if (f.dump r.avgRttMs).isSome then some r.avgRttMs else none := getDouble_field _
  have hencode : memberOr (lineValue f r) "avg_encode_ms" (getDouble f) (f.ofInt 0) =
      if (f.dump r.avgEncodeMs).isSome then some r.avgEncodeMs else none := getDouble_field _
  simp only [fromJson, htStart, htEnd, happ, hclient, haddress, hcodec, hwidth, hheight, hfps, hdropped, herror, hbitrate,
    hrtt, hencode, Option.bind_eq_bind, Option.bind_some]
  by_cases hfinite : Finite f r
  · obtain ⟨h1, h2, h3⟩ := hfinite
    rw [if_pos h1, if_pos h2, if_pos h3, if_pos ⟨h1, h2, h3⟩]
    simp only [Option.bind_some, Int32.ofInt_toInt, ofInt_count]
    rfl
  · rw [if_neg hfinite]
    by_cases h1 : (f.dump r.avgBitrateKbps).isSome = true
    · by_cases h2 : (f.dump r.avgRttMs).isSome = true
      · have h3 : ¬(f.dump r.avgEncodeMs).isSome = true := fun h => hfinite ⟨h1, h2, h⟩
        rw [if_pos h1, if_pos h2, if_neg h3]
        rfl
      · rw [if_pos h1, if_neg h2]
        rfl
    · rw [if_neg h1]
      rfl

/-- Nothing is on a line, apart from blanks and a byte order mark in front of them. -/
def Blank (line : Bytes) : Prop := ∀ b ∈ skipBom line, blank b = true

instance (line : Bytes) : Decidable (Blank line) := List.decidableBAll _ _

theorem skipBom_append (front rest : Bytes) (hb : b ∉ byteOrderMark) : skipBom (front ++ b :: rest) = skipBom front ++ b :: rest := by
  simp only [byteOrderMark, List.mem_cons, not_or] at hb
  obtain ⟨h1, h2, h3, -⟩ := hb
  obtain _ | ⟨x, _ | ⟨y, _ | ⟨z, front⟩⟩⟩ := front
  · simp [skipBom, byteOrderMark, h1]
  · simp [skipBom, byteOrderMark, h2]
  · simp [skipBom, byteOrderMark, h3]
  · simp only [skipBom, List.cons_append, List.take_succ_cons, List.take_zero, List.drop_succ_cons, List.drop_zero]
    split
    · rfl
    · rfl

theorem parse_append {e : Entry (Number D)} {more : List (Entry (Number D))} (front : Bytes) :
    parse f (front ++ objectWritten (e :: more)) = document (dialect f) (skipBom front ++ objectWritten (e :: more)) := by
  have hopen : objectWritten (e :: more) = leftBrace :: (entriesWritten (e :: more) ++ [rightBrace]) := rfl
  rw [hopen, parse, skipBom_append front _ (by decide)]

/-- Behind blanks a line is read as its record. -/
theorem readLine_written (hf : f.Lawful) {line front : Bytes} (hdump : dumpLine f r = some line) (hfront : Blank front) :
    readLine f (front ++ line) = if Finite f r then some (stored r) else none := by
  obtain ⟨e, more, rfl, -, hfaithful, -, hvalue⟩ := dumpLine_eq hf hdump
  rw [readLine, parse_append, document_blanks hfront, document_object (List.cons_ne_nil e more) hfaithful, Option.bind_some,
    hvalue, fromJson_line]

/-- Behind anything else it is lost. -/
theorem readLine_behind (hf : f.Lawful) {line front : Bytes} (hdump : dumpLine f r = some line) (hfront : ¬Blank front)
    (hbroken : readLine f front = none) : readLine f (front ++ line) = none := by
  obtain ⟨e, more, rfl, hkey, hfaithful, -, -⟩ := dumpLine_eq hf hdump
  obtain ⟨key, hkey⟩ : ∃ key, e.key = 97 :: key := ⟨_, hkey⟩
  have hshown : ∃ b ∈ skipBom front, blank b = false := by
    by_contra hall
    refine hfront fun b hmem => ?_
    by_contra hblank
    exact hall ⟨b, hmem, Bool.eq_false_iff.mpr hblank⟩
  have hletter : Foreign (dialect f) 97 := ⟨rfl, by decide, by decide, by decide, by decide, rfl⟩
  have hbrace : Foreign (dialect f) leftBrace := ⟨rfl, by decide, by decide, by decide, by decide, rfl⟩
  rw [readLine, parse_append]
  cases hread : document (dialect f) (skipBom front ++ objectWritten (e :: more)) with
  | none => rfl
  | some value =>
    have hparse : parse f front = some value := document_behind hshown hfaithful hkey hletter hbrace hread
    rw [readLine, hparse] at hbroken
    exact hbroken

/-! ## The file -/

/-- What `recent` reads of a file, without its filters and its limit. -/
def readings (f : Doubles D) (content : Bytes) : List (Record D) :=
  (getlines newline content).filterMap fun line => if line = [] then none else readLine f line

/-- A file of lines that are no records. -/
def Malformed (f : Doubles D) (content : Bytes) : Prop := ∀ line ∈ getlines newline content, line ≠ [] → readLine f line = none

/-- The line that the next record is appended to. -/
def unfinished (content : Bytes) : Bytes := content.rtakeWhile (· ≠ newline)

def finished (content : Bytes) : Bytes := content.rdropWhile (· ≠ newline)

def kept (records : List (Record D)) : List (Record D) := records.filter fun r => ¬skipped r

/-- The line of a record. -/
def lineOf (f : Doubles D) (r : Record D) : Bytes := (dumpLine f (clamped r)).getD []

theorem recent_eq (limit : ℕ) (appFilter clientFilter : Bytes) (file : Option Bytes) :
    recent f limit appFilter clientFilter file =
      lastOf limit ((readings f (file.getD [])).filter (wanted appFilter clientFilter)) := by
  by_cases hlimit : limit = 0
  · simp [recent, lastOf, hlimit]
  · cases file with
    | none =>
      rw [recent, if_neg hlimit]
      rfl
    | some content =>
      rw [recent, if_neg hlimit, readings, List.filter_filterMap]
      congr 2
      funext line
      split
      · rfl
      · rfl

theorem lines_finished (content rest : Bytes) :
    getlines newline (finished content ++ rest) = getlines newline (finished content) ++ getlines newline rest := by
  by_cases hempty : finished content = []
  · rw [hempty]
    rfl
  · have hlast : (finished content).getLast hempty = newline := by
      by_contra hother
      exact List.rdropWhile_last_not _ content hempty (decide_eq_true hother)
    obtain ⟨front, hfront⟩ : ∃ front, finished content = front ++ [newline] :=
      ⟨_, by rw [← hlast, List.dropLast_append_getLast hempty]⟩
    rw [hfront, List.append_assoc, List.singleton_append, getlines_split]

theorem unfinished_plain (content : Bytes) : newline ∉ unfinished content := by
  intro hmem
  simpa using List.mem_rtakeWhile_imp hmem

theorem content_split (content : Bytes) : finished content ++ unfinished content = content :=
  List.rdropWhile_append_rtakeWhile

theorem record_eq (r : Record D) (file : Option Bytes) :
    record f r file =
      if skipped r then some file else (dumpLine f (clamped r)).map fun line => some (file.getD [] ++ line ++ [newline]) := by
  have hskipped : skipped (clamped r) = skipped r := by
    unfold clamped
    split <;> rfl
  rw [record, hskipped]

theorem kept_cons_skipped {records : List (Record D)} (hskipped : skipped r = true) : kept (r :: records) = kept records := by
  simp [kept, hskipped]

theorem kept_cons {records : List (Record D)} (hskipped : skipped r = false) : kept (r :: records) = r :: kept records := by
  simp [kept, hskipped]

/-- The lines of the records that are not skipped are appended one after the other. -/
theorem recordAll_eq {records : List (Record D)} {file file' : Option Bytes} (hrun : recordAll f records file = some file') :
    (∀ r ∈ kept records, (dumpLine f (clamped r)).isSome) ∧
      file'.getD [] = file.getD [] ++ (kept records).flatMap fun r => lineOf f r ++ [newline] := by
  induction records generalizing file with
  | nil =>
    obtain rfl := Option.some.inj hrun
    simp [kept]
  | cons r records ih =>
    rw [recordAll, List.foldlM_cons] at hrun
    obtain ⟨mid, hfirst, hrest⟩ := Option.bind_eq_some_iff.mp hrun
    obtain ⟨hwritten, hcontent⟩ := ih hrest
    rw [record_eq] at hfirst
    cases hskipped : skipped r with
    | true =>
      rw [if_pos hskipped] at hfirst
      obtain rfl := Option.some.inj hfirst
      rw [kept_cons_skipped hskipped]
      exact ⟨hwritten, hcontent⟩
    | false =>
      rw [if_neg (by simp [hskipped])] at hfirst
      obtain ⟨line, hline, rfl⟩ := Option.map_eq_some_iff.mp hfirst
      have hlineOf : lineOf f r = line := by rw [lineOf, hline, Option.getD_some]
      rw [kept_cons hskipped, hcontent, List.flatMap_cons, hlineOf]
      refine ⟨List.forall_mem_cons.mpr ⟨by rw [hline]; rfl, hwritten⟩, ?_⟩
      simp only [Option.getD_some, List.append_assoc]

theorem recordAll_isSome {records : List (Record D)} (hwritable : ∀ r ∈ kept records, (dumpLine f (clamped r)).isSome)
    (file : Option Bytes) : ∃ file', recordAll f records file = some file' := by
  induction records generalizing file with
  | nil => exact ⟨file, rfl⟩
  | cons r records ih =>
    rw [recordAll, List.foldlM_cons, record_eq]
    cases hskipped : skipped r with
    | true =>
      rw [if_pos rfl]
      exact ih (by rwa [kept_cons_skipped hskipped] at hwritable) file
    | false =>
      rw [kept_cons hskipped, List.forall_mem_cons] at hwritable
      obtain ⟨line, hline⟩ := Option.isSome_iff_exists.mp hwritable.1
      rw [if_neg (by simp), hline]
      exact ih hwritable.2 _

theorem lineOf_eq (hwritable : (dumpLine f (clamped r)).isSome) : dumpLine f (clamped r) = some (lineOf f r) := by
  obtain ⟨line, hline⟩ := Option.isSome_iff_exists.mp hwritable
  rw [lineOf, hline, Option.getD_some]

theorem lineOf_ne_nil (hf : f.Lawful) (hwritable : (dumpLine f (clamped r)).isSome) (front : Bytes) :
    front ++ lineOf f r ≠ [] ∧ newline ∉ lineOf f r := by
  obtain ⟨e, more, hline, -, -, hplain, -⟩ := dumpLine_eq hf (lineOf_eq hwritable)
  exact ⟨by rw [hline]; simp [objectWritten], hplain⟩

theorem getlines_records (hf : f.Lawful) {records : List (Record D)}
    (hwritable : ∀ r ∈ records, (dumpLine f (clamped r)).isSome) :
    getlines newline (records.flatMap fun r => lineOf f r ++ [newline]) = records.map (lineOf f) := by
  induction records with
  | nil => rfl
  | cons r records ih =>
    obtain ⟨-, hplain⟩ := lineOf_ne_nil hf (hwritable r List.mem_cons_self) []
    rw [List.flatMap_cons, List.append_assoc, List.singleton_append, getlines_append hplain, List.map_cons,
      ih fun other hother => hwritable other (List.mem_cons_of_mem _ hother)]

/-- What is read of the lines of records, when nothing else can be read of the file. -/
theorem readings_records (hf : f.Lawful) {content : Bytes} (hmalformed : Malformed f content) {first : Record D}
    {more : List (Record D)} (hwritable : ∀ r ∈ first :: more, (dumpLine f (clamped r)).isSome) :
    readings f (content ++ (first :: more).flatMap fun r => lineOf f r ++ [newline]) =
      (readLine f (unfinished content ++ lineOf f first)).toList ++ more.filterMap fun r => readLine f (lineOf f r) := by
  have hfirst := hwritable first List.mem_cons_self
  have hmore : ∀ r ∈ more, (dumpLine f (clamped r)).isSome := fun r hr => hwritable r (List.mem_cons_of_mem _ hr)
  obtain ⟨hsome, hplain⟩ := lineOf_ne_nil hf hfirst (unfinished content)
  have hitem : newline ∉ unfinished content ++ lineOf f first := by
    rw [List.mem_append, not_or]
    exact ⟨unfinished_plain content, hplain⟩
  have hlines : getlines newline (content ++ (first :: more).flatMap fun r => lineOf f r ++ [newline]) =
      getlines newline (finished content) ++ (unfinished content ++ lineOf f first) :: more.map (lineOf f) := by
    rw [← getlines_records hf hmore, ← getlines_append hitem, ← lines_finished]
    congr 1
    rw [List.flatMap_cons, ← List.append_assoc (finished content), ← List.append_assoc (finished content), content_split]
    simp only [List.append_assoc, List.singleton_append]
  have hold : (getlines newline (finished content)).filterMap (fun line => if line = [] then none else readLine f line) = [] := by
    rw [List.filterMap_eq_nil_iff]
    intro line hline
    by_cases hempty : line = []
    · rw [if_pos hempty]
    · have hmem : line ∈ getlines newline content := by
        rw [← content_split content, lines_finished]
        exact List.mem_append_left _ hline
      rw [if_neg hempty]
      exact hmalformed line hmem hempty
  have hnew : ∀ r ∈ more, (if lineOf f r = [] then none else readLine f (lineOf f r)) = readLine f (lineOf f r) :=
    fun r hr => if_neg (lineOf_ne_nil hf (hmore r hr) []).1
  rw [readings, hlines, List.filterMap_append, hold, List.nil_append, List.filterMap_cons, if_neg hsome, List.filterMap_map]
  have hrest := List.filterMap_congr hnew
  simp only [Function.comp_def, hrest]
  cases readLine f (unfinished content ++ lineOf f first) with
  | none => rfl
  | some r => rfl

/-! ## The round trip -/

/-- What the history of these records is: those that match, in order, the last `limit` of them. -/
def expected (limit : ℕ) (appFilter clientFilter : Bytes) (records : List (Record D)) : List (Record D) :=
  lastOf limit (((kept records).map fun r => stored (clamped r)).filter (wanted appFilter clientFilter))

/-- No call throws, and every query returns what the history is. -/
def RoundTrip (f : Doubles D) (file : Option Bytes) (records : List (Record D)) : Prop :=
  ∃ file', recordAll f records file = some file' ∧
    ∀ limit appFilter clientFilter, recent f limit appFilter clientFilter file' = expected limit appFilter clientFilter records

theorem finite_clamped (r : Record D) : Finite f (clamped r) ↔ Finite f r := by
  unfold clamped
  split <;> exact Iff.rfl

theorem writable_clamped (r : Record D) : Writable (clamped r) ↔ Writable r := by
  unfold clamped
  split <;> exact Iff.rfl

theorem readings_expected (hf : f.Lawful) {content : Bytes} (hmalformed : Malformed f content) {records : List (Record D)}
    (hwritable : ∀ r ∈ kept records, (dumpLine f (clamped r)).isSome) (hfinite : ∀ r ∈ kept records, Finite f r)
    (hblank : Blank (unfinished content) ∨ kept records = []) :
    readings f (content ++ (kept records).flatMap fun r => lineOf f r ++ [newline]) =
      (kept records).map fun r => stored (clamped r) := by
  have hread : ∀ front r, Blank front → r ∈ kept records → readLine f (front ++ lineOf f r) = some (stored (clamped r)) := by
    intro front r hfront hr
    rw [readLine_written hf (lineOf_eq (hwritable r hr)) hfront, if_pos ((finite_clamped r).mpr (hfinite r hr))]
  cases hkept : kept records with
  | nil =>
    rw [List.flatMap_nil, List.append_nil, List.map_nil, readings, List.filterMap_eq_nil_iff]
    intro line hline
    by_cases hempty : line = []
    · rw [if_pos hempty]
    · rw [if_neg hempty]
      exact hmalformed line hline hempty
  | cons first more =>
    rw [hkept] at hwritable hread hblank
    have hnone : Blank [] := fun b hmem => absurd hmem (by simp [skipBom, byteOrderMark])
    have hmore : ∀ r ∈ more, readLine f (lineOf f r) = some (stored (clamped r)) :=
      fun r hr => hread [] r hnone (List.mem_cons_of_mem _ hr)
    obtain hfront | hempty := hblank
    · rw [readings_records hf hmalformed hwritable, hread _ first hfront List.mem_cons_self, List.filterMap_congr hmore,
        List.map_cons]
      simp
    · exact absurd hempty (by simp)

/-- If everything was read, the unfinished line was blank and the averages were finite. -/
theorem finite_of_readings (hf : f.Lawful) {content : Bytes} (hmalformed : Malformed f content) {records : List (Record D)}
    (hwritable : ∀ r ∈ kept records, (dumpLine f (clamped r)).isSome)
    (hcount : (readings f (content ++ (kept records).flatMap fun r => lineOf f r ++ [newline])).length = (kept records).length) :
    (∀ r ∈ kept records, Finite f r) ∧ (Blank (unfinished content) ∨ kept records = []) := by
  cases hkept : kept records with
  | nil => exact ⟨List.forall_mem_nil _, Or.inr rfl⟩
  | cons first more =>
    rw [hkept] at hwritable hcount
    rw [readings_records hf hmalformed hwritable, List.length_append, List.length_cons] at hcount
    have hbound : (more.filterMap fun r => readLine f (lineOf f r)).length ≤ more.length := List.length_filterMap_le _ _
    have hnone : Blank [] := fun b hmem => absurd hmem (by simp [skipBom, byteOrderMark])
    have hfinite : ∀ front r, Blank front → r ∈ first :: more → (readLine f (front ++ lineOf f r)).isSome → Finite f r := by
      intro front r hfront hr hsome
      rw [readLine_written hf (lineOf_eq (hwritable r hr)) hfront] at hsome
      by_contra hbad
      rw [if_neg fun h => hbad ((finite_clamped r).mp h)] at hsome
      exact absurd hsome (by simp)
    cases hread : readLine f (unfinished content ++ lineOf f first) with
    | none =>
      rw [hread, Option.toList_none, List.length_nil] at hcount
      omega
    | some r =>
      rw [hread, Option.toList_some, List.length_singleton] at hcount
      have hblank : Blank (unfinished content) := by
        by_contra hbad
        have hsome : unfinished content ≠ [] := fun hempty => hbad (by rw [hempty]; exact hnone)
        have hmem : unfinished content ∈ getlines newline content := by
          rw [← content_split content, lines_finished, content_split,
            getlines_last (unfinished_plain content) hsome]
          exact List.mem_append_right _ (List.mem_singleton_self _)
        have hpart := hmalformed _ hmem hsome
        rw [readLine_behind hf (lineOf_eq (hwritable first List.mem_cons_self)) hbad hpart] at hread
        exact absurd hread (by simp)
      have hall := List.filterMap_length_eq_length.mp (by omega : (more.filterMap fun r => readLine f (lineOf f r)).length = more.length)
      refine ⟨List.forall_mem_cons.mpr ⟨?_, fun r hr => ?_⟩, Or.inl hblank⟩
      · exact hfinite _ first hblank List.mem_cons_self (by rw [hread]; rfl)
      · exact hfinite [] r hnone (List.mem_cons_of_mem _ hr) (hall r hr)

/-- Two of the numbers. -/
inductive Sample where
  | zero
  | nan
  deriving DecidableEq

def samples : Doubles Sample where
  dump
    | .zero => some (ascii "0.0")
    | .nan => none
  strtod text := if text = ascii "0.0" then some .zero else none
  truncate _ := 0
  ofInt _ := .zero

theorem samples_lawful : samples.Lawful where
  numeral x text hdump := by
    cases x with
    | zero =>
      obtain rfl := Option.some.inj hdump
      rfl
    | nan => exact absurd hdump (by simp [samples])
  fractional x text hdump := by
    cases x with
    | zero =>
      obtain rfl := Option.some.inj hdump
      rfl
    | nan => exact absurd hdump (by simp [samples])
  round x text hdump := by
    cases x with
    | zero =>
      obtain rfl := Option.some.inj hdump
      rfl
    | nan => exact absurd hdump (by simp [samples])

/-- A record of an hour, of an application of this name. -/
def hour (appName : Bytes) : Record Sample where
  tStart := 0
  tEnd := 3600000000000
  appName := appName
  clientName := ascii "TV"
  clientAddress := ascii "10.0.0.2"
  codec := ascii "hevc"
  width := 1920
  height := 1080
  fps := 60
  avgBitrateKbps := .zero
  avgRttMs := .zero
  avgEncodeMs := .zero
  droppedFrames := 0
  error := []

end Sunshine.SessionHistory
