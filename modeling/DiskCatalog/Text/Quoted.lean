import DiskCatalog.Text.Printable

/-!
# Quoted text

How a text is shown inside a message: in single quotes, or in double quotes when it holds a single
and no double quote.  Backslashes, the quote and characters that are not printable are escaped.
Bytes are shown like texts in ASCII, with a letter before the quote.
-/

namespace DiskCatalog.Text

/-- The lower-case hexadecimal digits of a number, with zeros in front up to the given width. -/
def hexadecimal (width n : Nat) : List Char :=
  let digits := Nat.toDigits 16 n
  List.replicate (width - digits.length) '0' ++ digits

def quoteMark (s : List Char) : Char :=
  if s.contains '\'' && !s.contains '"' then '"' else '\''

/-- A character as it is shown between two marks of the given kind. -/
def quotedChar (mark c : Char) : List Char :=
  if c = mark ∨ c = '\\' then ['\\', c]
  else if c = '\n' then ['\\', 'n']
  else if c = '\r' then ['\\', 'r']
  else if c = '\t' then ['\\', 't']
  else if isPrintable c then [c]
  else if c.toNat < 0x100 then '\\' :: 'x' :: hexadecimal 2 c.toNat
  else if c.toNat < 0x10000 then '\\' :: 'u' :: hexadecimal 4 c.toNat
  else '\\' :: 'U' :: hexadecimal 8 c.toNat

def quotedChars (s : List Char) : List Char :=
  let mark := quoteMark s
  mark :: s.flatMap (quotedChar mark) ++ [mark]

def quoted (s : String) : String :=
  String.ofList (quotedChars s.toList)

/-- A byte as it is shown between two marks of the given kind. -/
def quotedByte (mark : Char) (b : UInt8) : List Char :=
  if 0x7F ≤ b.toNat then '\\' :: 'x' :: hexadecimal 2 b.toNat
  else quotedChar mark (Char.ofNat b.toNat)

def quotedBytes (bytes : List UInt8) : String :=
  let mark := quoteMark (bytes.map fun b => Char.ofNat b.toNat)
  String.ofList ('b' :: mark :: bytes.flatMap (quotedByte mark) ++ [mark])

/-- The first characters of a quotation, as many as messages about numbers show. -/
def shortened (quotation : String) : String :=
  String.ofList (quotation.toList.take 200)

end DiskCatalog.Text
