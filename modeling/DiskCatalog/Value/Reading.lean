import DiskCatalog.Binary64.Reading
import DiskCatalog.Text.Numeral
import DiskCatalog.Value.Basic

/-!
# Reading JSON

Reads the JSON text of a value.  A number with a point or an exponent is read as a number, any other
one as an integer, and two escaped halves of a character are put together.  `Value.field` and
`Value.items` take a value apart.
-/

namespace DiskCatalog.Value

def skipBlanks (s : List Char) : List Char :=
  s.dropWhile fun c => c = ' ' || c = '\n' || c = '\r' || c = '\t'

def hexDigit? (c : Char) : Option Nat :=
  if 'a' ≤ c ∧ c ≤ 'f' then some (c.toNat - 87)
  else if 'A' ≤ c ∧ c ≤ 'F' then some (c.toNat - 55)
  else Text.asciiDigit? c

/-- The number behind the mark of an escaped code unit. -/
def codeUnit? (s : List Char) : Option Nat := do
  let digits ← (s.take 4).mapM hexDigit?
  if digits.length = 4 then some (digits.foldl (fun n d => 16 * n + d) 0) else none

def joinHalves (high low : Nat) : Char :=
  Char.ofNat (0x10000 + (high - 0xD800) * 0x400 + (low - 0xDC00))

def unescaped : Char → Char
  | 'n' => '\n'
  | 't' => '\t'
  | 'r' => '\r'
  | 'b' => '\x08'
  | 'f' => '\x0c'
  | c => c

/-- The character behind a backslash, and the rest. -/
def readEscape (s : List Char) : Option (Char × List Char) :=
  match s with
  | 'u' :: t => do
    let high ← codeUnit? t
    let rest := t.drop 4
    if 0xD800 ≤ high ∧ high < 0xDC00 then
      match rest with
      | '\\' :: 'u' :: u => do
        let low ← codeUnit? u
        some (joinHalves high low, u.drop 4)
      | _ => none
    else some (Char.ofNat high, rest)
  | c :: rest => some (unescaped c, rest)
  | [] => none

/-- The text behind an opening quote, of at most so many characters, and the rest.  What has been
read comes first, the last character at its head. -/
def readText (done : List Char) : Nat → List Char → Option (List Char × List Char)
  | bound + 1, '\\' :: s =>
    match readEscape s with
    | some (c, rest) => readText (c :: done) bound rest
    | none => none
  | _, '"' :: s => some (done.reverse, s)
  | bound + 1, c :: s => readText (c :: done) bound s
  | _, _ => none

def readString (s : List Char) : Option (String × List Char) :=
  (readText [] s.length s).map fun (chars, rest) => (String.ofList chars, rest)

def isNumberChar (c : Char) : Bool :=
  Text.isAsciiDigit c || c = '-' || c = '+' || c = '.' || c = 'e' || c = 'E'

def readNumber (s : List Char) : Option (Value × List Char) :=
  let digits := s.takeWhile isNumberChar
  let value :=
    if digits.any fun c => c = '.' || c = 'e' || c = 'E' then (Binary64.read? digits).map .float
    else (Text.readInt digits).toOption.map .int
  value.map fun v => (v, s.drop digits.length)

mutual

/-- A value at the head of a text, of at most so many tokens. -/
def readValue : Nat → List Char → Option (Value × List Char)
  | 0, _ => none
  | bound + 1, s =>
    match skipBlanks s with
    | '"' :: t => (readString t).map fun (string, rest) => (.text string, rest)
    | '[' :: t => (readItems bound t).map fun (items, rest) => (.list items, rest)
    | '\x7b' :: t => (readFields bound t).map fun (fields, rest) => (.object fields, rest)
    | 'n' :: 'u' :: 'l' :: 'l' :: t => some (.null, t)
    | 't' :: 'r' :: 'u' :: 'e' :: t => some (.bool true, t)
    | 'f' :: 'a' :: 'l' :: 's' :: 'e' :: t => some (.bool false, t)
    | t => readNumber t

def readItems : Nat → List Char → Option (List Value × List Char)
  | 0, _ => none
  | bound + 1, s =>
    match skipBlanks s with
    | ']' :: t => some ([], t)
    | ',' :: t => readItems bound t
    | t => do
      let (v, rest) ← readValue bound t
      let (vs, rest) ← readItems bound rest
      some (v :: vs, rest)

def readFields : Nat → List Char → Option (List (String × Value) × List Char)
  | 0, _ => none
  | bound + 1, s =>
    match skipBlanks s with
    | '\x7d' :: t => some ([], t)
    | ',' :: t => readFields bound t
    | '"' :: t => do
      let (name, rest) ← readString t
      match skipBlanks rest with
      | ':' :: rest =>
        let (v, rest) ← readValue bound rest
        let (fields, rest) ← readFields bound rest
        some ((name, v) :: fields, rest)
      | _ => none
    | _ => none

end

def ofJson? (text : String) : Option Value :=
  let s := text.toList
  (readValue (s.length + 1) s).map (·.1)

/-- The field of an object, nothing if there is none. -/
def field (v : Value) (name : String) : Value :=
  match v with
  | .object fields => (fields.lookup name).getD .null
  | _ => .null

def hasField (v : Value) (name : String) : Bool :=
  match v with
  | .object fields => (fields.lookup name).isSome
  | _ => false

def items : Value → List Value
  | .list items => items
  | _ => []

def fields : Value → List (String × Value)
  | .object fields => fields
  | _ => []

/-- The text of a value, none for nothing. -/
def text? : Value → Option String
  | .null => none
  | v => some v.shown

end DiskCatalog.Value
