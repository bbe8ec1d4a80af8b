import Mathlib.Data.List.DropRight
import Sunshine.Lib.JsonNumbers
import Sunshine.Lib.JsonTexts
import Sunshine.Lib.Texts
import Sunshine.Session.History

/-! The session history as it lies on the disk: one JSON document a line, written by `session_history::record` and read
by `session_history::recent` through `nlohmann::json`.

The library escapes the control characters, refuses to write bytes that are no UTF-8, and writes `null` for a number that
is not finite, which it does not read as a number again. The conversions of floating-point numbers are parameters. -/
namespace Sunshine.SessionHistory
open Json
set_option autoImplicit false

/-- The conversions of `double`: `dump` has no text for what is not finite, `strtod` no value for what is out of
range. -/
structure Doubles (D : Type) where
  dump : D → Option Bytes
  strtod : Bytes → Option D
  truncate : D → ℤ
  ofInt : ℤ → D

/-- A point or an exponent makes a number a floating-point number. -/
def fractional (lexeme : Bytes) : Bool := lexeme.any fun b => b = 46 ∨ b = 69 ∨ b = 101

/-- What the library promises of the numbers it writes: they are JSON, look like floating-point numbers, and are read
as the numbers they were. -/
structure Doubles.Lawful {D : Type} (f : Doubles D) : Prop where
  numeral : ∀ x text, f.dump x = some text → Json.numeral text = true
  fractional : ∀ x text, f.dump x = some text → SessionHistory.fractional text = true
  round : ∀ x text, f.dump x = some text → f.strtod text = some x

/-- `session_history::record_t`; time points count nanoseconds. -/
structure Record (D : Type) where
  tStart : Int64
  tEnd : Int64
  appName : Bytes
  clientName : Bytes
  clientAddress : Bytes
  codec : Bytes
  width : Int32
  height : Int32
  fps : Int32
  avgBitrateKbps : D
  avgRttMs : D
  avgEncodeMs : D
  droppedFrames : UInt64
  error : Bytes

/-! ## Writing -/

inductive Number (D : Type) where
  | unsigned (n : ℕ)
  | integer (z : ℤ)
  | float (x : D)

/-- What a member of the line is assigned from. -/
inductive Field (D : Type) where
  | int (z : ℤ)
  | double (x : D)
  | string (s : Bytes)

/-- The digits of `\u00xx`, in lower case. -/
def hexChar (n : ℕ) : UInt8 := if n < 10 then UInt8.ofNat (48 + n) else UInt8.ofNat (87 + n)

def dumpByte (b : UInt8) : Bytes :=
  if b = 8 then ascii "\\b"
  else if b = 9 then ascii "\\t"
  else if b = 10 then ascii "\\n"
  else if b = 12 then ascii "\\f"
  else if b = 13 then ascii "\\r"
  else if b = quote then ascii "\\\""
  else if b = backslash then ascii "\\\\"
  else if b.toNat < 0x20 then ascii "\\u00" ++ [hexChar (b.toNat / 16), hexChar (b.toNat % 16)]
  else [b]

section Writing

variable {D : Type} (f : Doubles D)

/-- `dump_escaped` and `dump_float`; a string that is no UTF-8 is the exception `type_error.316`. -/
def Field.dump : Field D → Option Bytes
  | .int z => some (integer z)
  | .double x => some ((f.dump x).getD (ascii "null"))
  | .string s => if Utf8.Valid s then some (quote :: s.flatMap dumpByte ++ [quote]) else none

/-- The value that the text of a field stands for. -/
def Field.value : Field D → Value (Number D)
  | .int z => .number (if z < 0 then .integer z else .unsigned z.natAbs)
  | .double x => if (f.dump x).isSome then .number (.float x) else .null
  | .string s => .string s

/-- Time points are stored in seconds. -/
def seconds (t : Int64) : ℤ := Session.seconds t.toInt

/-- The members of the line, in the order of their keys. -/
def members (r : Record D) : List (Bytes × Field D) :=
  [(ascii "app_name", .string r.appName),
    (ascii "avg_bitrate_kbps", .double r.avgBitrateKbps),
    (ascii "avg_encode_ms", .double r.avgEncodeMs),
    (ascii "avg_rtt_ms", .double r.avgRttMs),
    (ascii "client_address", .string r.clientAddress),
    (ascii "client_name", .string r.clientName),
    (ascii "codec", .string r.codec),
    (ascii "dropped_frames", .int r.droppedFrames.toNat),
    (ascii "error", .string r.error),
    (ascii "fps", .int r.fps.toInt),
    (ascii "height", .int r.height.toInt),
    (ascii "t_end", .int (seconds r.tEnd)),
    (ascii "t_start", .int (seconds r.tStart)),
    (ascii "width", .int r.width.toInt)]

def dumpMember (member : Bytes × Field D) : Option (Entry (Number D)) :=
  (member.2.dump f).map fun text => ⟨member.1, text, member.2.value f⟩

def dumpLine (r : Record D) : Option Bytes := ((members r).mapM (dumpMember f)).map objectWritten

def newline : UInt8 := 10

/-- An end before the start is moved to the start. -/
def clamped (r : Record D) : Record D := if r.tEnd.toInt < r.tStart.toInt then { r with tEnd := r.tStart } else r

def skipped (r : Record D) : Bool := r.appName = [] ∧ r.clientName = []

/-- `session_history::record`, on the bytes of the file if there is one; `none` is an exception. -/
def record (r : Record D) (file : Option Bytes) : Option (Option Bytes) :=
  let safeRecord := clamped r
  if skipped safeRecord then some file
  else (dumpLine f safeRecord).map fun line => some (file.getD [] ++ line ++ [newline])

def recordAll (records : List (Record D)) (file : Option Bytes) : Option (Option Bytes) :=
  records.foldlM (fun file r => record f r file) file

end Writing

/-! ## Reading -/

section Reading

variable {D : Type} (f : Doubles D)

/-- A number token: an integer that fits 64 bits, or else a `double`. -/
def scanNumber (lexeme : Bytes) : Option (Number D) :=
  let float := (f.strtod lexeme).map Number.float
  if ¬numeral lexeme then none
  else if fractional lexeme then float
  else if lexeme.head? = some 45 then
    if -9223372036854775808 ≤ integerValue lexeme then some (.integer (integerValue lexeme)) else float
  else if naturalValue lexeme < 18446744073709551616 then some (.unsigned (naturalValue lexeme))
  else float

/-- A zero byte between two tokens counts as the end of the input. -/
def dialect : Dialect (Number D) where
  number := scanNumber f
  ends b := b = 0

def byteOrderMark : Bytes := [0xEF, 0xBB, 0xBF]

def skipBom (line : Bytes) : Bytes := if line.take 3 = byteOrderMark then line.drop 3 else line

def parse (line : Bytes) : Option (Value (Number D)) := document (dialect f) (skipBom line)

/-- `get_arithmetic_value` to an integer. -/
def Number.toInt : Number D → ℤ
  | .unsigned n => n
  | .integer z => z
  | .float x => f.truncate x

def Number.toDouble : Number D → D
  | .unsigned n => f.ofInt n
  | .integer z => f.ofInt z
  | .float x => x

def getInteger : Value (Number D) → Option ℤ
  | .number x => some (x.toInt f)
  | _ => none

/-- An `int` is also read from `true` and `false`. -/
def getInt : Value (Number D) → Option ℤ
  | .bool value => some (if value then 1 else 0)
  | value => getInteger f value

def getDouble : Value (Number D) → Option D
  | .number x => some (x.toDouble f)
  | _ => none

def getString : Value (Number D) → Option Bytes
  | .string s => some s
  | _ => none

/-- `json.value(key, default)`; `none` is an exception. -/
def memberOr {A : Type} (json : Value (Number D)) (key : String) (get : Value (Number D) → Option A) (default : A) : Option A :=
  match json with
  | .object _ => (json.find (ascii key)).elim (some default) get
  | _ => none

def timePoint (seconds : ℤ) : Int64 := Int64.ofInt (seconds * 1000000000)

def fromJson (json : Value (Number D)) : Option (Record D) := do
  let tStart ← memberOr json "t_start" (getInteger f) 0
  let tEnd ← memberOr json "t_end" (getInteger f) 0
  let appName ← memberOr json "app_name" getString []
  let clientName ← memberOr json "client_name" getString []
  let clientAddress ← memberOr json "client_address" getString []
  let codec ← memberOr json "codec" getString []
  let width ← memberOr json "width" (getInt f) 0
  let height ← memberOr json "height" (getInt f) 0
  let fps ← memberOr json "fps" (getInt f) 0
  let avgBitrateKbps ← memberOr json "avg_bitrate_kbps" (getDouble f) (f.ofInt 0)
  let avgRttMs ← memberOr json "avg_rtt_ms" (getDouble f) (f.ofInt 0)
  let avgEncodeMs ← memberOr json "avg_encode_ms" (getDouble f) (f.ofInt 0)
  let droppedFrames ← memberOr json "dropped_frames" (getInteger f) 0
  let error ← memberOr json "error" getString []
  return {
    tStart := timePoint tStart
    tEnd := timePoint tEnd
    appName := appName
    clientName := clientName
    clientAddress := clientAddress
    codec := codec
    width := Int32.ofInt width
    height := Int32.ofInt height
    fps := Int32.ofInt fps
    avgBitrateKbps := avgBitrateKbps
    avgRttMs := avgRttMs
    avgEncodeMs := avgEncodeMs
    droppedFrames := UInt64.ofInt droppedFrames
    error := error }

def readLine (line : Bytes) : Option (Record D) := (parse f line).bind (fromJson f)

/-- An empty filter lets every name through. -/
def passes (filter name : Bytes) : Bool := filter = [] ∨ (Texts.search filter name).isSome

def wanted (appFilter clientFilter : Bytes) (r : Record D) : Bool :=
  passes appFilter r.appName ∧ passes clientFilter r.clientName

/-- The last of a list, as many as there may be. -/
def lastOf {A : Type} (limit : ℕ) (l : List A) : List A := if limit < l.length then l.drop (l.length - limit) else l

/-- `session_history::recent`. -/
def recent (limit : ℕ) (appFilter clientFilter : Bytes) (file : Option Bytes) : List (Record D) :=
  if limit = 0 then []
  else
    match file with
    | none => []
    | some content =>
      lastOf limit ((Texts.getlines newline content).filterMap fun line =>
        if line = [] then none else (readLine f line).filter (wanted appFilter clientFilter))

end Reading
end Sunshine.SessionHistory
