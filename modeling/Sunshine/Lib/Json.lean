import Sunshine.Lib.Utf8

/-! JSON, read one byte at a time.

The reader keeps a stack of the arrays and objects that are open and a mode that says what it stands in; texts that
follow each other are read one after the other (`List.foldlM_append`), and what is read inside one array or object
leaves the ones around it alone. The values of numbers, and the bytes that count as the end of the input, are those of a
dialect. -/
namespace Sunshine.Json
set_option autoImplicit false

abbrev Bytes := List UInt8

/-- The bytes of an ASCII text. -/
def ascii (text : String) : Bytes := text.toList.map fun ch => UInt8.ofNat ch.toNat

def quote : UInt8 := 34
def comma : UInt8 := 44
def colon : UInt8 := 58
def leftBracket : UInt8 := 91
def backslash : UInt8 := 92
def rightBracket : UInt8 := 93
def leftBrace : UInt8 := 123
def rightBrace : UInt8 := 125

def blank (b : UInt8) : Bool := b = 32 ∨ b = 9 ∨ b = 10 ∨ b = 13

/-! ## Strings -/

/-- Where the reader stands in a string: between the quotes, behind a backslash, in the digits of `\u`, or before the
second half of a surrogate pair. -/
inductive Inside where
  | text (q : Utf8.State)
  | escape
  | unicode (high : Option ℕ) (count value : ℕ)
  | lowAwaited (high : ℕ)
  | lowEscape (high : ℕ)
  deriving DecidableEq

def escaped (b : UInt8) : Option UInt8 :=
  if b = quote ∨ b = backslash ∨ b = 47 then some b
  else if b = 98 then some 8
  else if b = 102 then some 12
  else if b = 110 then some 10
  else if b = 114 then some 13
  else if b = 116 then some 9
  else none

def hexDigit (b : UInt8) : Option ℕ :=
  if 48 ≤ b.toNat ∧ b.toNat ≤ 57 then some (b.toNat - 48)
  else if 97 ≤ b.toNat ∧ b.toNat ≤ 102 then some (b.toNat - 87)
  else if 65 ≤ b.toNat ∧ b.toNat ≤ 70 then some (b.toNat - 55)
  else none

def isHigh (code : ℕ) : Bool := 0xD800 ≤ code ∧ code ≤ 0xDBFF
def isLow (code : ℕ) : Bool := 0xDC00 ≤ code ∧ code ≤ 0xDFFF

/-- What four hexadecimal digits stand for, behind the first half of a surrogate pair or not. -/
def codeUnit : Option ℕ → ℕ → Option (Bytes × Inside)
  | none, code =>
    if isHigh code then some ([], .lowAwaited code)
    else if isLow code then none
    else some (Utf8.encode code, .text .start)
  | some high, code =>
    if isLow code then some (Utf8.encode (0x10000 + (high - 0xD800) * 0x400 + (code - 0xDC00)), .text .start)
    else none

/-- The bytes that one more byte of a string adds to its value. A quote that ends the string is not one of them. -/
def Inside.step : Inside → UInt8 → Option (Bytes × Inside)
  | .text q, b =>
    if b = backslash then if q = .start then some ([], .escape) else none
    else if b = quote ∨ b.toNat < 0x20 then none
    else (Utf8.step q b).map fun q => ([b], .text q)
  | .escape, b =>
    if b = 117 then some ([], .unicode none 0 0)
    else (escaped b).map fun value => ([value], .text .start)
  | .unicode high count value, b =>
    (hexDigit b).bind fun digit =>
      if count < 3 then some ([], .unicode high (count + 1) (value * 16 + digit))
      else codeUnit high (value * 16 + digit)
  | .lowAwaited high, b => if b = backslash then some ([], .lowEscape high) else none
  | .lowEscape high, b => if b = 117 then some ([], .unicode (some high) 0 0) else none

def Inside.run : Inside → Bytes → Option (Bytes × Inside)
  | inside, [] => some ([], inside)
  | inside, b :: more =>
    (inside.step b).bind fun first => (first.2.run more).map fun rest => (first.1 ++ rest.1, rest.2)

/-! ## Numbers -/

def isDigit (b : UInt8) : Bool := 48 ≤ b.toNat ∧ b.toNat ≤ 57

/-- A byte that a number can be made of: digits, signs, the point and the letters `e` and `E`. -/
def numeric (b : UInt8) : Bool := isDigit b ∨ b = 43 ∨ b = 45 ∨ b = 46 ∨ b = 69 ∨ b = 101

def digits (text : Bytes) : Bool := text ≠ [] ∧ text.all isDigit

def exponent : Bytes → Bool
  | [] => true
  | b :: text => (b = 69 ∨ b = 101) ∧ digits (if text.head? = some 43 ∨ text.head? = some 45 then text.tail else text)

def fraction : Bytes → Bool
  | [] => true
  | b :: text =>
    if b = 46 then text.takeWhile isDigit ≠ [] ∧ exponent (text.dropWhile isDigit) else exponent (b :: text)

/-- The grammar of numbers. -/
def numeral (text : Bytes) : Bool :=
  let unsigned := if text.head? = some 45 then text.tail else text
  let whole := unsigned.takeWhile isDigit
  whole ≠ [] ∧ (whole.head? = some 48 → whole = [48]) ∧ fraction (unsigned.dropWhile isDigit)

/-! ## Documents -/

inductive Value (N : Type) where
  | null
  | bool (value : Bool)
  | number (value : N)
  | string (text : Bytes)
  | array (items : List (Value N))
  | object (members : List (Bytes × Value N))

/-- The member of an object; of several with one key, the last. -/
def Value.find {N : Type} (key : Bytes) : Value N → Option (Value N)
  | .object members => (members.reverse.find? fun member => member.1 = key).map Prod.snd
  | _ => none

structure Dialect (N : Type) where
  number : Bytes → Option N
  ends : UInt8 → Bool

inductive Frame (N : Type) where
  | array (items : List (Value N))
  | object (members : List (Bytes × Value N))
  | member (members : List (Bytes × Value N)) (key : Bytes)

inductive Word where
  | true
  | false
  | null
  deriving DecidableEq

def Word.letters : Word → Bytes
  | .true => ascii "true"
  | .false => ascii "false"
  | .null => ascii "null"

def Word.value {N : Type} : Word → Value N
  | .true => .bool Bool.true
  | .false => .bool Bool.false
  | .null => .null

/-- What the reader stands in. `closing` says that an array or object that has just been opened may be closed again. -/
inductive Mode (N : Type) where
  | value (closing : Bool)
  | key (closing : Bool)
  | colon (key : Bytes)
  | string (isKey : Bool) (text : Bytes) (inside : Inside)
  | number (lexeme : Bytes)
  | literal (word : Word) (read : ℕ)
  | next
  | done (value : Value N)
  | ended (value : Value N)

structure Reader (N : Type) where
  stack : List (Frame N)
  mode : Mode N

section Reading

variable {N : Type}

/-- A value is complete. -/
def deliver : List (Frame N) → Value N → Option (Reader N)
  | [], value => some ⟨[], .done value⟩
  | .array items :: stack, value => some ⟨.array (items ++ [value]) :: stack, .next⟩
  | .member members key :: stack, value => some ⟨.object (members ++ [(key, value)]) :: stack, .next⟩
  | .object _ :: _, _ => none

def close (b : UInt8) : List (Frame N) → Option (Reader N)
  | .array items :: stack => if b = rightBracket then deliver stack (.array items) else none
  | .object members :: stack => if b = rightBrace then deliver stack (.object members) else none
  | _ => none

def separate : List (Frame N) → Option (Reader N)
  | .array items :: stack => some ⟨.array items :: stack, .value false⟩
  | .object members :: stack => some ⟨.object members :: stack, .key false⟩
  | _ => none

def name (key : Bytes) : List (Frame N) → Option (Reader N)
  | .object members :: stack => some ⟨.member members key :: stack, .value false⟩
  | _ => none

def endString (text : Bytes) (isKey : Bool) (stack : List (Frame N)) : Option (Reader N) :=
  if isKey then some ⟨stack, .colon text⟩ else deliver stack (.string text)

variable (d : Dialect N)

/-- A byte behind a value. -/
def Reader.after (r : Reader N) (b : UInt8) : Option (Reader N) :=
  match r.mode with
  | .next => if blank b then some r else if b = comma then separate r.stack else close b r.stack
  | .done value => if blank b then some r else if d.ends b then some ⟨[], .ended value⟩ else none
  | .ended _ => some r
  | _ => none

/-- A byte where a value starts. -/
def Reader.first (r : Reader N) (closing : Bool) (b : UInt8) : Option (Reader N) :=
  if blank b then some r
  else if b = leftBracket then some ⟨.array [] :: r.stack, .value true⟩
  else if b = leftBrace then some ⟨.object [] :: r.stack, .key true⟩
  else if b = quote then some ⟨r.stack, .string false [] (.text .start)⟩
  else if b = 116 then some ⟨r.stack, .literal .true 1⟩
  else if b = 102 then some ⟨r.stack, .literal .false 1⟩
  else if b = 110 then some ⟨r.stack, .literal .null 1⟩
  else if numeric b then some ⟨r.stack, .number [b]⟩
  else if closing then close b r.stack
  else none

def Reader.step (r : Reader N) (b : UInt8) : Option (Reader N) :=
  match r.mode with
  | .value closing => r.first closing b
  | .key closing =>
    if blank b then some r
    else if b = quote then some ⟨r.stack, .string true [] (.text .start)⟩
    else if closing then close b r.stack
    else none
  | .colon key => if blank b then some r else if b = colon then name key r.stack else none
  | .string isKey text inside =>
    if inside = .text .start ∧ b = quote then endString text isKey r.stack
    else (inside.step b).map fun more => ⟨r.stack, .string isKey (text ++ more.1) more.2⟩
  | .number lexeme =>
    if numeric b then some ⟨r.stack, .number (lexeme ++ [b])⟩
    else (d.number lexeme).bind fun value => (deliver r.stack (.number value)).bind fun r => r.after d b
  | .literal word read =>
    if word.letters[read]? = some b then
      if read + 1 = word.letters.length then deliver r.stack word.value else some ⟨r.stack, .literal word (read + 1)⟩
    else none
  | _ => r.after d b

def Reader.run (r : Reader N) (text : Bytes) : Option (Reader N) := text.foldlM (Reader.step d) r

/-- The end of the input. -/
def Reader.finish (r : Reader N) : Option (Value N) :=
  match r.mode with
  | .done value => some value
  | .ended value => some value
  | .number lexeme => if r.stack.isEmpty then (d.number lexeme).map .number else none
  | _ => none

def start : Reader N := ⟨[], .value false⟩

def document (text : Bytes) : Option (Value N) := (start.run d text).bind fun r => r.finish d

end Reading
end Sunshine.Json
