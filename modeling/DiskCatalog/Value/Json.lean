import DiskCatalog.Value.Basic

/-!
# Values as JSON

Two layouts: everything on one line, with a blank behind commas and colons, and one item to a line
with two blanks of indentation.  Both write ASCII only: every other character is escaped, in two
halves when it lies beyond the first 65536 code points.  Bytes stand as the text that messages show
of them.
-/

namespace DiskCatalog.Value

def jsonUnit (n : Nat) : List Char :=
  '\\' :: 'u' :: Text.hexadecimal 4 n

def jsonChar (c : Char) : List Char :=
  if c = '"' ∨ c = '\\' then ['\\', c]
  else if c = '\n' then ['\\', 'n']
  else if c = '\r' then ['\\', 'r']
  else if c = '\t' then ['\\', 't']
  else if c.toNat = 8 then ['\\', 'b']
  else if c.toNat = 12 then ['\\', 'f']
  else if 0x20 ≤ c.toNat ∧ c.toNat < 0x7F then [c]
  else if c.toNat < 0x10000 then jsonUnit c.toNat
  else
    let n := c.toNat - 0x10000
    jsonUnit (0xD800 + n / 0x400) ++ jsonUnit (0xDC00 + n % 0x400)

def jsonText (s : String) : String :=
  String.ofList ('"' :: s.toList.flatMap jsonChar ++ ['"'])

def jsonNumber (x : Binary64) : String :=
  match x with
  | .nan => "NaN"
  | .infinite negative => if negative then "-Infinity" else "Infinity"
  | x => x.toText

mutual

/-- The JSON text of a value on one line. -/
def toLine : Value → String
  | .null => "null"
  | .bool true => "true"
  | .bool false => "false"
  | .int n => Text.ofInt n
  | .float x => jsonNumber x
  | .text s => jsonText s
  | .bytes content => jsonText (Text.quotedBytes content)
  | .list items => "[" ++ lineItems items ++ "]"
  | .object fields => "\x7b" ++ lineFields fields ++ "\x7d"

def lineItems : List Value → String
  | [] => ""
  | [v] => v.toLine
  | v :: vs => v.toLine ++ ", " ++ lineItems vs

def lineFields : List (String × Value) → String
  | [] => ""
  | [(k, v)] => jsonText k ++ ": " ++ v.toLine
  | (k, v) :: fields => jsonText k ++ ": " ++ v.toLine ++ ", " ++ lineFields fields

end

/-- The start of a line with two blanks for each level. -/
def newLine (level : Nat) : String :=
  String.ofList ('\n' :: List.replicate (2 * level) ' ')

mutual

/-- The JSON text of a value with one item to a line, standing at a level of indentation. -/
def toLines (level : Nat) : Value → String
  | .list [] => "[]"
  | .list items => "[" ++ linesItems level items ++ newLine level ++ "]"
  | .object [] => "\x7b\x7d"
  | .object fields => "\x7b" ++ linesFields level fields ++ newLine level ++ "\x7d"
  | .null => "null"
  | .bool true => "true"
  | .bool false => "false"
  | .int n => Text.ofInt n
  | .float x => jsonNumber x
  | .text s => jsonText s
  | .bytes content => jsonText (Text.quotedBytes content)

def linesItems (level : Nat) : List Value → String
  | [] => ""
  | [v] => newLine (level + 1) ++ v.toLines (level + 1)
  | v :: vs => newLine (level + 1) ++ v.toLines (level + 1) ++ "," ++ linesItems level vs

def linesFields (level : Nat) : List (String × Value) → String
  | [] => ""
  | [(k, v)] => newLine (level + 1) ++ jsonText k ++ ": " ++ v.toLines (level + 1)
  | (k, v) :: fields =>
    newLine (level + 1) ++ jsonText k ++ ": " ++ v.toLines (level + 1) ++ "," ++
      linesFields level fields

end

end DiskCatalog.Value
