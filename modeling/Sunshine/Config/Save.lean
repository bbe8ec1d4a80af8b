import Sunshine.Config.Lines
import Sunshine.Lib.Entries

/-! `confighttp::saveConfig`: a JSON object is written as raw `key = text` lines. What it writes reads back
as the object exactly when all its keys and texts are plain (`saveConfig_roundTrip_iff`). -/
namespace Sunshine.Config
open Entries
set_option autoImplicit false

/-! ## The endpoint -/

/-- A value of the body; `Other` holds booleans, numbers, arrays and objects. -/
inductive JsonValue (Other : Type) where
  | null
  | string (text : Text)
  | other (value : Other)

/-- An object has one value for a key. -/
structure JsonObject (Other : Type) where
  items : List (Text × JsonValue Other)
  keys_nodup : (items.map Prod.fst).Nodup

inductive InputTree (Other : Type) where
  | object (object : JsonObject Other)
  | notObject

/-- What `file_handler::write_file` comes to; a write that fails may leave a part of the contents. -/
inductive Written where
  | whole
  | notOpened
  | cut (length : ℕ)
  deriving DecidableEq

inductive Response where
  | refused
  | badRequest
  | notWritten
  | saved
  deriving DecidableEq

/-- `body` is `none` where `json::parse` throws; `admitted` are the content type, scope and CSRF checks. -/
structure SaveRequest (Other : Type) where
  admitted : Bool
  body : Option (InputTree Other)
  written : Written
  configFile : Text

section Save

variable {Other : Type} (dump : Other → Text)

def writtenText : JsonValue Other → Option Text
  | .null => none
  | .string text => if text = [] then none else some text
  | .other value => some (dump value)

def configStream (inputTree : JsonObject Other) : Text :=
  inputTree.items.foldl (fun stream item =>
    match writtenText dump item.2 with
    | none => stream
    | some text => stream ++ item.1 ++ [' ', '=', ' '] ++ text ++ ['\n']) []

def writeFile (written : Written) (file contents : Text) : Bool × Text :=
  match written with
  | .whole => (true, contents)
  | .notOpened => (false, file)
  | .cut length => (false, contents.take length)

/-- The answer and the config file behind it. -/
def saveConfig (request : SaveRequest Other) : Response × Text :=
  if request.admitted = false then (.refused, request.configFile)
  else match request.body with
  | none => (.badRequest, request.configFile)
  | some .notObject => (.badRequest, request.configFile)
  | some (.object inputTree) =>
    let contents := configStream dump inputTree
    if contents = [] then (.badRequest, request.configFile)
    else
      let (ok, file) := writeFile request.written request.configFile contents
      (if ok then .saved else .notWritten, file)

/-! ## What is written -/

/-- The keys with a value that is not empty, each with its text. -/
def writtenLines (inputTree : JsonObject Other) : List (Text × Text) :=
  inputTree.items.filterMap fun item => (writtenText dump item.2).map (item.1, ·)

theorem foldl_stream (items : List (Text × JsonValue Other)) (stream : Text) :
    items.foldl (fun stream item =>
      match writtenText dump item.2 with
      | none => stream
      | some text => stream ++ item.1 ++ [' ', '=', ' '] ++ text ++ ['\n']) stream =
      stream ++ linesOf (items.filterMap fun item => (writtenText dump item.2).map (item.1, ·)) := by
  induction items generalizing stream with
  | nil => exact (List.append_nil stream).symm
  | cons item items ih =>
    rw [List.foldl_cons, List.filterMap_cons]
    cases writtenText dump item.2 with
    | none => exact ih stream
    | some text =>
      rw [ih]
      simp [linesOf, lineOf]

theorem configStream_eq (inputTree : JsonObject Other) :
    configStream dump inputTree = linesOf (writtenLines dump inputTree) :=
  foldl_stream dump inputTree.items []

theorem linesOf_eq_nil (lines : List (Text × Text)) : linesOf lines = [] ↔ lines = [] := by
  cases lines with
  | nil => exact ⟨fun _ => rfl, fun _ => rfl⟩
  | cons line lines =>
    have hlength := length_lineOf line.1 line.2 (linesOf lines)
    refine ⟨fun h => ?_, nofun⟩
    rw [linesOf] at h
    rw [h] at hlength
    exact absurd hlength (Nat.not_lt_zero _)

theorem writtenLines_nodup (inputTree : JsonObject Other) :
    ((writtenLines dump inputTree).map Prod.fst).Nodup := by
  refine inputTree.keys_nodup.sublist ?_
  unfold writtenLines
  induction inputTree.items with
  | nil => exact List.Sublist.refl _
  | cons item items ih =>
    rw [List.filterMap_cons]
    cases writtenText dump item.2 with
    | none => exact ih.cons _
    | some text => exact ih.cons_cons _

/-- The reader gives every written key its text exactly when all of them are plain. -/
theorem parseConfig_linesOf (lines : List (Text × Text)) (hnodup : (lines.map Prod.fst).Nodup) :
    (∀ key, (parseConfig (linesOf lines)).lookup key = lines.lookup key) ↔
      ∀ line ∈ lines, PlainKey line.1 ∧ PlainText line.2 := by
  constructor
  · intro hback line hline
    have hread : ∀ line ∈ lines, (parseConfig (linesOf lines)).lookup line.1 = some line.2 := by
      intro line hline
      rw [hback, lookup_of_nodup hnodup hline]
    have hkeys : ∀ line ∈ lines, PlainKey line.1 := by
      intro line hline
      exact parseLoop_plainKey _ _ [] nofun _
        (mem_of_lookup (hread line hline))
    exact ⟨hkeys line hline,
      plain_of_parseLoop lines _ [] (Nat.le_refl _) hkeys (fun _ _ => rfl) hnodup hread line hline⟩
  · intro hplain key
    rw [parseConfig, parseLoop_plain lines _ [] (Nat.le_refl _) hplain (fun _ _ => rfl) hnodup,
      List.nil_append]

/-! ## The round trip -/

/-- What a save has to keep: an accepted object reads back as its keys with their texts, and a rejected
one leaves the file alone. -/
structure RoundTrip (request : SaveRequest Other) (inputTree : JsonObject Other) : Prop where
  back : (saveConfig dump request).1 = .saved → ∀ key,
    (parseConfig (saveConfig dump request).2).lookup key = (writtenLines dump inputTree).lookup key
  untouched : (saveConfig dump request).1 = .badRequest ∨ (saveConfig dump request).1 = .refused →
    (saveConfig dump request).2 = request.configFile

/-- The objects the endpoint accepts. -/
def Accepted (request : SaveRequest Other) (inputTree : JsonObject Other) : Prop :=
  request.admitted = true ∧ writtenLines dump inputTree ≠ [] ∧ request.written = .whole

variable {dump} {request : SaveRequest Other} {inputTree : JsonObject Other}

theorem saveConfig_accepted (hbody : request.body = some (.object inputTree))
    (h : Accepted dump request inputTree) :
    saveConfig dump request = (.saved, linesOf (writtenLines dump inputTree)) := by
  obtain ⟨hadmitted, hlines, hwhole⟩ := h
  rw [saveConfig, if_neg (by rw [hadmitted]; decide), hbody]
  simp only [configStream_eq]
  rw [if_neg ((linesOf_eq_nil _).not.mpr hlines), hwhole]
  rfl

theorem saveConfig_not_accepted (hbody : request.body = some (.object inputTree))
    (h : ¬Accepted dump request inputTree) : (saveConfig dump request).1 ≠ .saved := by
  intro hsaved
  refine h ?_
  unfold saveConfig at hsaved
  by_cases hadmitted : request.admitted = false
  · rw [if_pos hadmitted] at hsaved
    cases hsaved
  rw [if_neg hadmitted, hbody] at hsaved
  simp only [configStream_eq] at hsaved
  by_cases hlines : linesOf (writtenLines dump inputTree) = []
  · rw [if_pos hlines] at hsaved
    cases hsaved
  rw [if_neg hlines] at hsaved
  refine ⟨Bool.not_eq_false _ ▸ hadmitted, fun hnil => hlines (hnil ▸ rfl), ?_⟩
  cases hwritten : request.written with
  | whole => rfl
  | notOpened | cut length =>
    rw [hwritten] at hsaved
    cases hsaved

/-- A rejection comes before the file is opened. -/
theorem saveConfig_rejected (request : SaveRequest Other)
    (h : (saveConfig dump request).1 = .badRequest ∨ (saveConfig dump request).1 = .refused) :
    (saveConfig dump request).2 = request.configFile := by
  unfold saveConfig at h ⊢
  split_ifs at h ⊢ with hadmitted
  · rfl
  · cases hbody : request.body with
    | none => rfl
    | some body =>
      cases body with
      | notObject => rfl
      | object inputTree =>
        rw [hbody] at h
        simp only at h ⊢
        split_ifs at h ⊢ with hempty
        · rfl
        · exact (or_self_iff.mp h).elim
        · exact (or_self_iff.mp h).elim

/-- A saved object reads back exactly when its keys and texts are plain. -/
theorem saveConfig_roundTrip_iff (hbody : request.body = some (.object inputTree)) :
    RoundTrip dump request inputTree ↔ (Accepted dump request inputTree →
      ∀ line ∈ writtenLines dump inputTree, PlainKey line.1 ∧ PlainText line.2) := by
  have hiff := parseConfig_linesOf _ (writtenLines_nodup dump inputTree)
  constructor
  · intro hround haccepted
    have hsave := saveConfig_accepted hbody haccepted
    have hback := hround.back (by rw [hsave])
    rw [hsave] at hback
    exact hiff.mp hback
  · intro hplain
    refine ⟨fun hsaved => ?_, saveConfig_rejected request⟩
    have haccepted : Accepted dump request inputTree := by
      by_contra hnot
      exact saveConfig_not_accepted hbody hnot hsaved
    rw [saveConfig_accepted hbody haccepted]
    exact hiff.mpr (hplain haccepted)

end Save

/-- `{"a": "x#y"}`. -/
def commentObject : JsonObject Empty := ⟨[(['a'], .string ['x', '#', 'y'])], by decide⟩

def commentRequest : SaveRequest Empty := ⟨true, some (.object commentObject), .whole, []⟩

theorem saveConfig_loses_comment :
    ¬∀ (request : SaveRequest Empty) (inputTree : JsonObject Empty),
      request.body = some (.object inputTree) → RoundTrip nofun request inputTree := by
  intro h
  have hback := (h commentRequest commentObject rfl).back rfl ['a']
  exact absurd hback (by decide)

theorem saveConfig_roundTrip_iff_comment :
    commentRequest.body = some (.object commentObject) ∧
      (RoundTrip nofun commentRequest commentObject ↔ (Accepted nofun commentRequest commentObject →
        ∀ line ∈ writtenLines nofun commentObject, PlainKey line.1 ∧ PlainText line.2)) :=
  ⟨rfl, saveConfig_roundTrip_iff rfl⟩

end Sunshine.Config
