import Sunshine.Lib.Json
import Sunshine.Lib.Texts

/-! The names of games as the files of the launchers denote them: a Steam manifest by the rules of VDF, a Lutris
configuration by those of YAML, an entry of Heroic by its JSON value. -/
namespace Sunshine.GameFiles
open Json
set_option autoImplicit false

def newline : UInt8 := 10

def lines (content : Bytes) : List Bytes := Texts.getlines newline content

/-! ## VDF -/

inductive Token where
  | text (t : Bytes)
  | opening
  | closing
  deriving DecidableEq

inductive Mode where
  | between
  | bare (t : Bytes)
  | quoted (t : Bytes)
  | escaped (t : Bytes)
  | comment
  deriving DecidableEq

/-- What a byte stands for behind a backslash; one that has no meaning there leaves the backslash. -/
def unescaped (b : UInt8) : Bytes :=
  if b = 110 then [10]
  else if b = 116 then [9]
  else if b = quote ∨ b = backslash then [b]
  else [backslash, b]

/-- A byte in front of a token. -/
def startToken (b : UInt8) : List Token × Mode :=
  if blank b then ([], .between)
  else if b = quote then ([], .quoted [])
  else if b = leftBrace then ([.opening], .between)
  else if b = rightBrace then ([.closing], .between)
  else ([], .bare [b])

/-- A word in brackets is a condition, and no text. -/
def bareToken (t : Bytes) : List Token := if t.head? = some leftBracket then [] else [.text t]

def Mode.next : Mode → UInt8 → List Token × Mode
  | .between, b => startToken b
  | .bare t, b =>
    if t = ascii "/" ∧ b = 47 then ([], .comment)
    else if blank b ∨ b = quote ∨ b = leftBrace ∨ b = rightBrace then
      (bareToken t ++ (startToken b).1, (startToken b).2)
    else ([], .bare (t ++ [b]))
  | .quoted t, b =>
    if b = quote then ([.text t], .between)
    else if b = backslash then ([], .escaped t)
    else ([], .quoted (t ++ [b]))
  | .escaped t, b => ([], .quoted (t ++ unescaped b))
  | .comment, b => ([], if b = newline then .between else .comment)

/-- A string that is not closed is none. -/
def tokens : Mode → Bytes → List Token
  | .bare t, [] => bareToken t
  | _, [] => []
  | mode, b :: content => (mode.next b).1 ++ tokens (mode.next b).2 content

/-- The pairs outside of all sections and in the outermost one; the manifest is that section. -/
def pairs : ℕ → Option Bytes → List Token → List (Bytes × Bytes)
  | _, _, [] => []
  | depth, none, .text key :: l => pairs depth (some key) l
  | depth, some key, .text value :: l => if depth ≤ 1 then (key, value) :: pairs depth none l else pairs depth none l
  | depth, _, .opening :: l => pairs (depth + 1) none l
  | depth, _, .closing :: l => pairs (depth - 1) none l

/-- The values that a manifest has for its name. -/
def manifestNames (content : Bytes) : List Bytes :=
  ((pairs 0 none (tokens .between content)).filter fun pair => pair.1 = ascii "name").map Prod.snd

example : manifestNames (ascii "\"A\"\n\x7b\"name\" \"a \\\"b\\\"\" U \x7b name c \x7d\x7d") =
    [ascii "a \"b\""] := rfl

/-! ## YAML -/

def space (b : UInt8) : Bool := b = 32 ∨ b = 9 ∨ b = 13

def trim (text : Bytes) : Bytes := ((text.dropWhile space).reverse.dropWhile space).reverse

/-- Lines of one scalar are joined by a space; empty ones between them are line ends. A double-quoted text can hide a line
end behind a backslash. -/
def foldLines (double : Bool) : Bytes → ℕ → List Bytes → Bytes
  | text, _, [] => text
  | text, gaps, line :: rest =>
    if trim line = [] then foldLines double text (gaps + 1) rest
    else if double ∧ gaps = 0 ∧ (text.reverse.takeWhile fun b => b = backslash).length % 2 = 1 then
      foldLines double (text.dropLast ++ trim line) 0 rest
    else foldLines double (text ++ (if gaps = 0 then [32] else List.replicate gaps newline) ++ trim line) 0 rest

/-- The value up to the closing quote, and what is behind that. -/
def singleQuoted : Bytes → Option (Bytes × Bytes)
  | [] => none
  | b :: text =>
    if b = 39 then
      match text with
      | [] => some ([], [])
      | c :: rest => if c = 39 then (singleQuoted rest).map fun read => (39 :: read.1, read.2) else some ([], c :: rest)
    else (singleQuoted text).map fun read => (b :: read.1, read.2)

inductive Escape where
  | none
  | started
  | hex (left value : ℕ)

def hexDigits (b : UInt8) : ℕ := if b = 120 then 2 else if b = 117 then 4 else if b = 85 then 8 else 0

def escapes : List (UInt8 × ℕ) :=
  [(48, 0), (97, 7), (98, 8), (116, 9), (9, 9), (110, 10), (118, 11), (102, 12), (114, 13), (101, 27), (32, 32), (34, 34),
    (47, 47), (92, 92), (78, 0x85), (95, 0xA0), (76, 0x2028), (80, 0x2029)]

def doubleQuoted : Escape → Bytes → Option (Bytes × Bytes)
  | _, [] => none
  | .none, b :: text =>
    if b = quote then some ([], text)
    else if b = backslash then doubleQuoted .started text
    else (doubleQuoted .none text).map fun read => (b :: read.1, read.2)
  | .started, b :: text =>
    if hexDigits b ≠ 0 then doubleQuoted (.hex (hexDigits b) 0) text
    else (escapes.lookup b).bind fun code =>
      (doubleQuoted .none text).map fun read => (Utf8.encode code ++ read.1, read.2)
  | .hex left value, b :: text =>
    (hexDigit b).bind fun digit =>
      if left ≤ 1 then (doubleQuoted .none text).map fun read => (Utf8.encode (16 * value + digit) ++ read.1, read.2)
      else doubleQuoted (.hex (left - 1) (16 * value + digit)) text

/-- Behind a quoted text stands nothing but a comment. -/
def closed (read : Bytes × Bytes) : Option Bytes :=
  if trim read.2 = [] ∨ (read.2.head?.any space ∧ (trim read.2).head? = some 35) then some read.1 else none

/-- The bytes that no plain scalar starts with; the first three may, in front of another byte of the text. -/
def indicators : Bytes := ascii "-?:,[]\x7b\x7d#&*!|>'\"%@" ++ [96]

def plainStart (text : Bytes) : Bool :=
  text.head?.any fun b => b ∉ indicators ∨ (b ∈ indicators.take 3 ∧ text.tail.head?.any fun c => !space c)

/-- A plain scalar is its text, whatever it could be besides. -/
def plain (text : Bytes) : Option Bytes :=
  let text := trim (text.take ((Texts.search (ascii " #") text).getD text.length))
  if plainStart text ∧ Texts.search (ascii ": ") text = none ∧ text.getLast? ≠ some colon then some text else none

def scalar (text : Bytes) : Option Bytes :=
  if text.head? = some 39 then (singleQuoted text.tail).bind closed
  else if text.head? = some quote then (doubleQuoted .none text.tail).bind closed
  else plain text

/-- A line that belongs to the value in front of it. -/
def continued (line : Bytes) : Bool := trim line = [] ∨ line.head?.any space

def nodeText (text : Bytes) (rest : List Bytes) : Bytes :=
  trim (foldLines (text.head? = some quote) text 0 (rest.takeWhile continued))

def isName (line : Bytes) : Bool := (ascii "name:").isPrefixOf line ∧ (line.drop 5).head?.all space

/-- The scalars of the outermost mapping that stand for its name. -/
def configNames : List Bytes → List (Option Bytes)
  | [] => []
  | line :: rest =>
    if isName line then scalar (nodeText (trim (line.drop 5)) rest) :: configNames rest else configNames rest

example : configNames (lines (ascii "game:\n  name: x\nname: \"a\\x41\" # b\nslug: a")) = [some (ascii "aA")] := by decide +kernel

/-! ## JSON -/

section Entries

variable {N : Type}

/-- The entries of a document: the items of an array, or those of the arrays of an object that has some, or its members. -/
def entriesOf : Value N → List (Value N)
  | .array items => items
  | .object members =>
    let lists := [ascii "library", ascii "games"].filterMap fun key =>
      match (Value.object members).find key with
      | some (.array items) => some items
      | _ => none
    if lists = [] then (members.map Prod.snd).filter fun value => match value with | .object _ => true | _ => false
    else lists.flatten
  | _ => []

def nameKeys : List Bytes := [ascii "title", ascii "app_title", ascii "name"]

/-- The text of a member that is a string and not empty. -/
def stringAt (entry : Value N) (key : Bytes) : Option Bytes :=
  match entry.find key with
  | some (.string text) => if text = [] then none else some text
  | _ => none

def entryName (entry : Value N) : Option Bytes := nameKeys.findSome? (stringAt entry)

end Entries

end Sunshine.GameFiles
