import Sunshine.Lib.Texts

/-! The plaintext reader of `rtsp_stream::socket_t`. A socket gathers reads in a buffer; `sameRequest_iff`
says for which cuts of the bytes it hands over the same request as for a single read. -/
namespace Sunshine.Rtsp
open Texts
set_option autoImplicit false

abbrev Text := List Char

/-! ## The reader -/

/-- What the reader uses of a parsed message: its options, by name. -/
structure RtspMessage where
  options : List (Text × Text)
  deriving DecidableEq

def needle : Text := ['\r', '\n', '\r', '\n']

def bufSize : ℕ := 2048

def parseInteger (low high : ℤ) (number : Text) : Option ℤ :=
  if number = [] then none
  else match fromChars low high number with
  | some (value, []) => some value
  | _ => none

def parseInt (number : Text) : Option ℤ := parseInteger (-2147483648) 2147483647 number

/-- An invalid or negative length is ignored. -/
def contentLength (req : RtspMessage) : ℕ :=
  match req.options.find? fun option => option.1 = "Content-length".toList with
  | none => 0
  | some option =>
    let begin := option.2.dropWhile fun ch => !isDigit ch
    if begin = [] then 0
    else match parseInt begin with
    | some parsedLength => if 0 ≤ parsedLength then parsedLength.toNat else 0
    | none => 0

/-- A socket between two reads: the bytes up to `begin`, and in the payload phase the end of the header. -/
inductive Socket where
  | header (msgBuf : Text)
  | payload (msgBuf : Text) (crlf : ℕ)
  | handled (msg : Text)
  | closed
  deriving DecidableEq

section Reader

variable (parseRtspMessage : Text → Option RtspMessage)

def parseRtspMessageSafe (data : Text) : Option RtspMessage :=
  if data.length < 4 then none
  else if search needle data = none then none
  else parseRtspMessage data

def read (msgBuf : Text) : Socket := if msgBuf.length = bufSize then .closed else .header msgBuf

def readPlaintextPayload (msgBuf : Text) (crlf : ℕ) : Socket :=
  if msgBuf.length = bufSize then .closed else .payload msgBuf crlf

def handlePlaintextPayload (msgBuf : Text) (crlf : ℕ) (bytes : Text) : Socket :=
  match parseRtspMessageSafe parseRtspMessage (msgBuf ++ bytes) with
  | none => .closed
  | some req =>
    if contentLength req ≤ (msgBuf ++ bytes).length - crlf then .handled (msgBuf ++ bytes)
    else readPlaintextPayload (msgBuf ++ bytes) crlf

def handleReadPlaintext (msgBuf bytes : Text) : Socket :=
  -- the pointer is meant to go back over a split delimiter, but `max` keeps it where it is
  let begin := max (msgBuf.length - 4) msgBuf.length
  match search needle ((msgBuf ++ bytes).drop begin) with
  | none => read (msgBuf ++ bytes)
  | some it =>
    let crlf := begin + it + needle.length
    handlePlaintextPayload parseRtspMessage ((msgBuf ++ bytes).take crlf) crlf
      ((msgBuf ++ bytes).drop crlf)

def onRead : Socket → Text → Socket
  | .header msgBuf, bytes => handleReadPlaintext parseRtspMessage msgBuf bytes
  | .payload msgBuf crlf, bytes => handlePlaintextPayload parseRtspMessage msgBuf crlf bytes
  | .handled msg, _ => .handled msg
  | .closed, _ => .closed

/-- The request of a connection: the bytes of the message, header and payload. -/
def Socket.request : Socket → Option Text
  | .handled msg => some msg
  | _ => none

def request (reads : List Text) : Option Text :=
  (reads.foldl (onRead parseRtspMessage) (.header [])).request

/-! ## Where a request is complete -/

/-- The header is well formed, and the payload is shorter than it says. -/
def Undecided (msgBuf : Text) (crlf : ℕ) : Prop :=
  ∃ req, parseRtspMessageSafe parseRtspMessage msgBuf = some req ∧
    msgBuf.length - crlf < contentLength req

def Complete (msgBuf : Text) (crlf : ℕ) : Prop :=
  ∃ req, parseRtspMessageSafe parseRtspMessage msgBuf = some req ∧
    contentLength req ≤ msgBuf.length - crlf

/-- Behind the header, all reads before the last leave the message undecided, and the last completes it. -/
def CompletesWith (msgBuf : Text) (crlf : ℕ) (more : List Text) : Prop :=
  (∀ earlier, earlier <+: more → earlier ≠ more → Undecided parseRtspMessage (msgBuf ++ earlier.flatten) crlf) ∧
    Complete parseRtspMessage (msgBuf ++ more.flatten) crlf

/-- One of the reads holds the whole delimiter, and the message is complete with the last of them, not before. -/
def Completes (msgBuf : Text) (reads : List Text) : Prop :=
  ∃ before bytes after it, reads = before ++ bytes :: after ∧ (∀ b ∈ before, search needle b = none) ∧
    search needle bytes = some it ∧
    CompletesWith parseRtspMessage (msgBuf ++ before.flatten ++ bytes)
      ((msgBuf ++ before.flatten).length + it + needle.length) after

/-! ## Runs -/

variable {parseRtspMessage}

theorem run_closed (reads : List Text) :
    reads.foldl (onRead parseRtspMessage) .closed = .closed := by
  induction reads with
  | nil => rfl
  | cons bytes reads ih => exact ih

theorem run_handled (reads : List Text) (msg : Text) :
    reads.foldl (onRead parseRtspMessage) (.handled msg) = .handled msg := by
  induction reads with
  | nil => rfl
  | cons bytes reads ih => exact ih

/-- What is left behind a full buffer is no read at all. -/
theorem reads_nil_of_full {msgBuf : Text} {reads : List Text} (hfull : msgBuf.length = bufSize)
    (hbytes : ∀ bytes ∈ reads, bytes ≠ []) (hfits : msgBuf.length + reads.flatten.length ≤ bufSize) :
    reads = [] := by
  cases reads with
  | nil => rfl
  | cons bytes reads =>
    have hne := List.length_pos_iff.mpr (hbytes bytes List.mem_cons_self)
    rw [List.flatten_cons, List.length_append] at hfits
    omega

theorem completesWith_nil (msgBuf : Text) (crlf : ℕ) :
    CompletesWith parseRtspMessage msgBuf crlf [] ↔ Complete parseRtspMessage msgBuf crlf := by
  unfold CompletesWith
  rw [List.flatten_nil, List.append_nil, and_iff_right]
  intro earlier hpre hne
  exact absurd (List.prefix_nil.mp hpre) hne

theorem completesWith_cons (msgBuf : Text) (crlf : ℕ) (bytes : Text) (more : List Text) :
    CompletesWith parseRtspMessage msgBuf crlf (bytes :: more) ↔
      Undecided parseRtspMessage msgBuf crlf ∧
        CompletesWith parseRtspMessage (msgBuf ++ bytes) crlf more := by
  unfold CompletesWith
  rw [List.flatten_cons, ← List.append_assoc, ← and_assoc]
  refine and_congr_left fun _ => ⟨fun h => ⟨?_, fun earlier hpre hne => ?_⟩, fun h earlier hpre hne => ?_⟩
  · have hfirst := h [] (List.nil_prefix) nofun
    rwa [List.flatten_nil, List.append_nil] at hfirst
  · have hnext := h (bytes :: earlier) (List.cons_prefix_cons.mpr ⟨rfl, hpre⟩) (by simpa using hne)
    rwa [List.flatten_cons, ← List.append_assoc] at hnext
  · cases earlier with
    | nil =>
      rw [List.flatten_nil, List.append_nil]
      exact h.1
    | cons b earlier =>
      obtain ⟨rfl, hmore⟩ := List.cons_prefix_cons.mp hpre
      rw [List.flatten_cons, ← List.append_assoc]
      exact h.2 earlier hmore fun heq => hne (heq ▸ rfl)

theorem handlePlaintextPayload_split (msgBuf : Text) (crlf : ℕ) (bytes : Text) :
    handlePlaintextPayload parseRtspMessage msgBuf crlf bytes =
      handlePlaintextPayload parseRtspMessage (msgBuf ++ bytes) crlf [] := by
  unfold handlePlaintextPayload
  rw [List.append_nil]

theorem handlePlaintextPayload_complete {msgBuf : Text} {crlf : ℕ}
    (h : Complete parseRtspMessage msgBuf crlf) :
    handlePlaintextPayload parseRtspMessage msgBuf crlf [] = .handled msgBuf := by
  obtain ⟨req, hparse, hlength⟩ := h
  unfold handlePlaintextPayload
  rw [List.append_nil, hparse]
  exact if_pos hlength

theorem handlePlaintextPayload_undecided {msgBuf : Text} {crlf : ℕ}
    (h : Undecided parseRtspMessage msgBuf crlf) :
    handlePlaintextPayload parseRtspMessage msgBuf crlf [] = readPlaintextPayload msgBuf crlf := by
  obtain ⟨req, hparse, hlength⟩ := h
  unfold handlePlaintextPayload
  rw [List.append_nil, hparse]
  exact if_neg (Nat.not_le.mpr hlength)

theorem handlePlaintextPayload_malformed {msgBuf : Text} {crlf : ℕ}
    (hcomplete : ¬Complete parseRtspMessage msgBuf crlf)
    (hundecided : ¬Undecided parseRtspMessage msgBuf crlf) :
    handlePlaintextPayload parseRtspMessage msgBuf crlf [] = .closed := by
  unfold handlePlaintextPayload
  rw [List.append_nil]
  cases hparse : parseRtspMessageSafe parseRtspMessage msgBuf with
  | none => rfl
  | some req =>
    rcases Nat.lt_or_ge (msgBuf.length - crlf) (contentLength req) with hlt | hle
    · exact absurd ⟨req, hparse, hlt⟩ hundecided
    · exact absurd ⟨req, hparse, hle⟩ hcomplete

theorem not_undecided_of_complete {msgBuf : Text} {crlf : ℕ}
    (h : Complete parseRtspMessage msgBuf crlf) : ¬Undecided parseRtspMessage msgBuf crlf := by
  rintro ⟨req, hparse, hlt⟩
  obtain ⟨req', hparse', hle⟩ := h
  rw [hparse] at hparse'
  obtain rfl := Option.some.inj hparse'
  omega

/-- A complete or malformed message settles the socket, whatever is read behind it. -/
theorem payload_request_settled (msgBuf : Text) (crlf : ℕ) (reads : List Text) (msg : Text)
    (hundecided : ¬Undecided parseRtspMessage msgBuf crlf) :
    (reads.foldl (onRead parseRtspMessage)
      (handlePlaintextPayload parseRtspMessage msgBuf crlf [])).request = some msg ↔
        ∃ more, more <+: reads ∧ CompletesWith parseRtspMessage msgBuf crlf more ∧
          msg = msgBuf ++ more.flatten := by
  by_cases hcomplete : Complete parseRtspMessage msgBuf crlf
  · rw [handlePlaintextPayload_complete hcomplete, run_handled]
    constructor
    · intro h
      obtain rfl := Option.some.inj h
      exact ⟨[], List.nil_prefix, (completesWith_nil _ _).mpr hcomplete, (List.append_nil _).symm⟩
    · rintro ⟨more, -, hmore, rfl⟩
      cases more with
      | nil =>
        rw [List.flatten_nil, List.append_nil]
        rfl
      | cons bytes more => exact absurd ((completesWith_cons _ _ _ _).mp hmore).1 hundecided
  · rw [handlePlaintextPayload_malformed hcomplete hundecided, run_closed]
    constructor
    · nofun
    · rintro ⟨more, -, hmore, -⟩
      cases more with
      | nil => exact absurd ((completesWith_nil _ _).mp hmore) hcomplete
      | cons bytes more => exact absurd ((completesWith_cons _ _ _ _).mp hmore).1 hundecided

/-- From the first payload read on: the request is the buffer of the first read that completes it. -/
theorem payload_request (msgBuf : Text) (crlf : ℕ) (reads : List Text) (msg : Text)
    (hbytes : ∀ bytes ∈ reads, bytes ≠ []) (hfits : msgBuf.length + reads.flatten.length ≤ bufSize) :
    (reads.foldl (onRead parseRtspMessage)
      (handlePlaintextPayload parseRtspMessage msgBuf crlf [])).request = some msg ↔
        ∃ more, more <+: reads ∧ CompletesWith parseRtspMessage msgBuf crlf more ∧
          msg = msgBuf ++ more.flatten := by
  induction reads generalizing msgBuf with
  | nil =>
    by_cases hundecided : Undecided parseRtspMessage msgBuf crlf
    · rw [handlePlaintextPayload_undecided hundecided, readPlaintextPayload, List.foldl_nil]
      constructor
      · intro h
        split_ifs at h <;> cases h
      · rintro ⟨more, hpre, hmore, -⟩
        rw [List.prefix_nil.mp hpre, completesWith_nil] at hmore
        exact absurd hundecided (not_undecided_of_complete hmore)
    · exact payload_request_settled msgBuf crlf [] msg hundecided
  | cons bytes reads ih =>
    by_cases hundecided : Undecided parseRtspMessage msgBuf crlf
    · have hopen : ¬msgBuf.length = bufSize := fun hfull =>
        List.cons_ne_nil _ _ (reads_nil_of_full hfull hbytes hfits)
      rw [List.flatten_cons, List.length_append] at hfits
      rw [handlePlaintextPayload_undecided hundecided, readPlaintextPayload, if_neg hopen,
        List.foldl_cons, onRead, handlePlaintextPayload_split,
        ih (msgBuf ++ bytes) (fun b hb => hbytes b (List.mem_cons_of_mem _ hb))
          (by rw [List.length_append]; omega)]
      constructor
      · rintro ⟨more, hpre, hmore, rfl⟩
        exact ⟨bytes :: more, List.cons_prefix_cons.mpr ⟨rfl, hpre⟩,
          (completesWith_cons _ _ _ _).mpr ⟨hundecided, hmore⟩, by
            rw [List.flatten_cons, List.append_assoc]⟩
      · rintro ⟨more, hpre, hmore, rfl⟩
        cases more with
        | nil =>
          exact absurd hundecided (not_undecided_of_complete ((completesWith_nil _ _).mp hmore))
        | cons b more =>
          obtain ⟨rfl, htail⟩ := List.cons_prefix_cons.mp hpre
          exact ⟨more, htail, ((completesWith_cons _ _ _ _).mp hmore).2, by
            rw [List.flatten_cons, List.append_assoc]⟩
    · exact payload_request_settled msgBuf crlf _ msg hundecided

/-! ## The header -/

theorem handleReadPlaintext_none {msgBuf bytes : Text} (h : search needle bytes = none) :
    handleReadPlaintext parseRtspMessage msgBuf bytes = read (msgBuf ++ bytes) := by
  unfold handleReadPlaintext
  simp only [Nat.max_eq_right (Nat.sub_le _ _), List.drop_left, h]

/-- A delimiter is found only inside one read. -/
theorem handleReadPlaintext_some {msgBuf bytes : Text} {it : ℕ} (h : search needle bytes = some it) :
    handleReadPlaintext parseRtspMessage msgBuf bytes =
      handlePlaintextPayload parseRtspMessage (msgBuf ++ bytes) (msgBuf.length + it + needle.length) [] := by
  unfold handleReadPlaintext
  simp only [Nat.max_eq_right (Nat.sub_le _ _), List.drop_left, h]
  rw [handlePlaintextPayload_split, List.take_append_drop]

theorem completes_nil (msgBuf : Text) : ¬Completes parseRtspMessage msgBuf [] := by
  rintro ⟨before, bytes, after, it, hreads, -⟩
  exact absurd hreads (by simp)

theorem completes_none {msgBuf bytes : Text} {reads : List Text} (h : search needle bytes = none) :
    Completes parseRtspMessage msgBuf (bytes :: reads) ↔
      Completes parseRtspMessage (msgBuf ++ bytes) reads := by
  constructor
  · rintro ⟨before, b, after, it, hreads, hbefore, hit, hmore⟩
    cases before with
    | nil =>
      obtain ⟨rfl, -⟩ := List.cons.inj hreads
      rw [h] at hit
      cases hit
    | cons b' before =>
      obtain ⟨rfl, rfl⟩ := List.cons.inj hreads
      rw [List.flatten_cons, ← List.append_assoc] at hmore
      exact ⟨before, b, after, it, rfl, (List.forall_mem_cons.mp hbefore).2, hit, hmore⟩
  · rintro ⟨before, b, after, it, rfl, hbefore, hit, hmore⟩
    refine ⟨bytes :: before, b, after, it, rfl, List.forall_mem_cons.mpr ⟨h, hbefore⟩, hit, ?_⟩
    rwa [List.flatten_cons, ← List.append_assoc]

theorem completes_some {msgBuf bytes : Text} {reads : List Text} {it : ℕ}
    (h : search needle bytes = some it) :
    Completes parseRtspMessage msgBuf (bytes :: reads) ↔
      CompletesWith parseRtspMessage (msgBuf ++ bytes) (msgBuf.length + it + needle.length) reads := by
  constructor
  · rintro ⟨before, b, after, it', hreads, hbefore, hit, hmore⟩
    cases before with
    | nil =>
      obtain ⟨rfl, rfl⟩ := List.cons.inj hreads
      rw [h] at hit
      obtain rfl := Option.some.inj hit
      rwa [List.flatten_nil, List.append_nil] at hmore
    | cons b' before =>
      obtain ⟨rfl, -⟩ := List.cons.inj hreads
      rw [(List.forall_mem_cons.mp hbefore).1] at h
      cases h
  · intro hmore
    refine ⟨[], bytes, reads, it, rfl, nofun, h, ?_⟩
    rwa [List.flatten_nil, List.append_nil]

/-- The request of a run is the bytes of the reads that complete it. -/
theorem header_request (msgBuf : Text) (reads : List Text) (msg : Text)
    (hbytes : ∀ bytes ∈ reads, bytes ≠ []) (hfits : msgBuf.length + reads.flatten.length ≤ bufSize) :
    (reads.foldl (onRead parseRtspMessage) (.header msgBuf)).request = some msg ↔
      ∃ front, front <+: reads ∧ Completes parseRtspMessage msgBuf front ∧
        msg = msgBuf ++ front.flatten := by
  induction reads generalizing msgBuf with
  | nil =>
    refine ⟨nofun, ?_⟩
    rintro ⟨front, hpre, hfront, -⟩
    rw [List.prefix_nil.mp hpre] at hfront
    exact absurd hfront (completes_nil msgBuf)
  | cons bytes reads ih =>
    have hrest := (List.forall_mem_cons.mp hbytes).2
    rw [List.flatten_cons, List.length_append] at hfits
    have hnext : (msgBuf ++ bytes).length + reads.flatten.length ≤ bufSize := by
      rw [List.length_append]
      omega
    have hprefixes : ∀ P : List Text → Prop, ¬P [] → ((∃ front, front <+: bytes :: reads ∧ P front) ↔
        ∃ front, front <+: reads ∧ P (bytes :: front)) := by
      intro P hnil
      constructor
      · rintro ⟨front, hpre, hfront⟩
        cases front with
        | nil => exact absurd hfront hnil
        | cons b front =>
          obtain ⟨rfl, htail⟩ := List.cons_prefix_cons.mp hpre
          exact ⟨front, htail, hfront⟩
      · rintro ⟨front, hpre, hfront⟩
        exact ⟨bytes :: front, List.cons_prefix_cons.mpr ⟨rfl, hpre⟩, hfront⟩
    rw [hprefixes _ fun h => completes_nil msgBuf h.1, List.foldl_cons, onRead]
    simp only [List.flatten_cons, ← List.append_assoc]
    cases hit : search needle bytes with
    | none =>
      rw [handleReadPlaintext_none hit, read]
      simp only [completes_none hit]
      by_cases hfull : (msgBuf ++ bytes).length = bufSize
      · obtain rfl := reads_nil_of_full hfull hrest hnext
        rw [if_pos hfull, ← ih (msgBuf ++ bytes) hrest hnext]
        exact ⟨nofun, nofun⟩
      · rw [if_neg hfull]
        exact ih (msgBuf ++ bytes) hrest hnext
    | some it =>
      rw [handleReadPlaintext_some hit]
      simp only [completes_some hit]
      exact payload_request (msgBuf ++ bytes) _ reads msg hrest hnext

/-! ## Segmentation -/

/-- Successive reads of a connection; what does not fit the buffer is never read. -/
structure Cut (sent : Text) (reads : List Text) : Prop where
  nonempty : ∀ bytes ∈ reads, bytes ≠ []
  flatten : reads.flatten = sent.take bufSize

theorem Cut.fits {sent : Text} {reads : List Text} (h : Cut sent reads) :
    ([] : Text).length + reads.flatten.length ≤ bufSize := by
  rw [h.flatten, List.length_nil, Nat.zero_add, List.length_take]
  exact Nat.min_le_left _ _

/-- Of the reads only all together hold all the bytes. -/
theorem Cut.eq_of_flatten {sent : Text} {reads front : List Text} (h : Cut sent reads)
    (hpre : front <+: reads) (hflatten : front.flatten = reads.flatten) : front = reads := by
  obtain ⟨more, rfl⟩ := hpre
  cases more with
  | nil => exact (List.append_nil front).symm
  | cons bytes more =>
    have hne := List.length_pos_iff.mpr
      (h.nonempty bytes (List.mem_append_right _ List.mem_cons_self))
    have hlength := congrArg List.length hflatten
    rw [List.flatten_append, List.flatten_cons, List.length_append, List.length_append] at hlength
    omega

/-- The single read of all the bytes. -/
def whole (sent : Text) : List Text := if sent = [] then [] else [sent.take bufSize]

theorem whole_cut (sent : Text) : Cut sent (whole sent) := by
  unfold whole
  split_ifs with hnil
  · exact ⟨nofun, by rw [hnil]; rfl⟩
  · refine ⟨fun bytes hbytes => ?_, List.append_nil _⟩
    rw [List.mem_singleton.mp hbytes]
    intro htake
    rcases List.take_eq_nil_iff.mp htake with hzero | hsent
    · exact absurd hzero (by decide)
    · exact hnil hsent

theorem request_eq_some_iff {sent : Text} {reads : List Text} (h : Cut sent reads) (msg : Text) :
    request parseRtspMessage reads = some msg ↔
      ∃ front, front <+: reads ∧ Completes parseRtspMessage [] front ∧ msg = front.flatten :=
  header_request [] reads msg h.nonempty h.fits

theorem completes_whole {sent : Text} {front : List Text} (hpre : front <+: whole sent)
    (h : Completes parseRtspMessage [] front) : front = whole sent := by
  have hne : front ≠ [] := by
    rintro rfl
    exact completes_nil [] h
  unfold whole at hpre ⊢
  split_ifs at hpre ⊢
  · exact absurd (List.prefix_nil.mp hpre) hne
  · obtain ⟨bytes, more, rfl⟩ := List.exists_cons_of_ne_nil hne
    obtain ⟨rfl, htail⟩ := List.cons_prefix_cons.mp hpre
    rw [List.prefix_nil.mp htail]

/-- A cut gives the request of the single read exactly when all its reads complete it, where the
single read does, and no reads complete one, where it does not. -/
theorem sameRequest_iff (sent : Text) (reads : List Text) (h : Cut sent reads) :
    request parseRtspMessage reads = request parseRtspMessage (whole sent) ↔
      (Completes parseRtspMessage [] (whole sent) → Completes parseRtspMessage [] reads) ∧
      (¬Completes parseRtspMessage [] (whole sent) →
        ∀ front, front <+: reads → ¬Completes parseRtspMessage [] front) := by
  have hwhole := whole_cut sent
  by_cases hsingle : Completes parseRtspMessage [] (whole sent)
  · have hrequest : request parseRtspMessage (whole sent) = some (whole sent).flatten :=
      (request_eq_some_iff hwhole _).mpr ⟨_, List.prefix_rfl, hsingle, rfl⟩
    rw [hrequest, request_eq_some_iff h]
    constructor
    · rintro ⟨front, hpre, hfront, hflatten⟩
      rw [hwhole.flatten, ← h.flatten] at hflatten
      rw [h.eq_of_flatten hpre hflatten.symm] at hfront
      exact ⟨fun _ => hfront, fun hnot => absurd hsingle hnot⟩
    · rintro ⟨hall, -⟩
      exact ⟨reads, List.prefix_rfl, hall hsingle, hwhole.flatten.trans h.flatten.symm⟩
  · have hrequest : request parseRtspMessage (whole sent) = none := by
      refine Option.eq_none_iff_forall_ne_some.mpr fun msg hmsg => ?_
      obtain ⟨front, hpre, hfront, -⟩ := (request_eq_some_iff hwhole msg).mp hmsg
      rw [completes_whole hpre hfront] at hfront
      exact hsingle hfront
    rw [hrequest, Option.eq_none_iff_forall_ne_some]
    constructor
    · intro hnone
      exact ⟨fun hin => absurd hin hsingle, fun _ front hpre hfront =>
        hnone _ ((request_eq_some_iff h _).mpr ⟨front, hpre, hfront, rfl⟩)⟩
    · rintro ⟨-, hnever⟩ msg hmsg
      obtain ⟨front, hpre, hfront, -⟩ := (request_eq_some_iff h msg).mp hmsg
      exact hnever hsingle front hpre hfront

end Reader

def optionsRequest : Text := "OPTIONS rtsp://h RTSP/1.0\r\nCSeq: 1\r\n\r\n".toList

/-- The parser on this one message. -/
def parseOptions (data : Text) : Option RtspMessage :=
  if data = optionsRequest then some ⟨[("CSeq".toList, "1".toList)]⟩ else none

/-- The request in two reads, with the delimiter in both. -/
def splitReads : List Text := [optionsRequest.take 37, optionsRequest.drop 37]

theorem splitReads_cut : Cut optionsRequest splitReads := ⟨by decide, by decide⟩

theorem split_delimiter_is_lost :
    ¬∀ (sent : Text) (reads : List Text), Cut sent reads →
      request parseOptions reads = request parseOptions (whole sent) := by
  intro h
  have hsame := h optionsRequest splitReads splitReads_cut
  exact absurd hsame (by decide)

theorem sameRequest_iff_options :
    Cut optionsRequest splitReads ∧
      (request parseOptions splitReads = request parseOptions (whole optionsRequest) ↔
        (Completes parseOptions [] (whole optionsRequest) → Completes parseOptions [] splitReads) ∧
        (¬Completes parseOptions [] (whole optionsRequest) →
          ∀ front, front <+: splitReads → ¬Completes parseOptions [] front)) :=
  ⟨splitReads_cut, sameRequest_iff _ _ splitReads_cut⟩

end Sunshine.Rtsp
