/-!
# Bytes as text

Bytes are read as text in three ways: as UTF-8 or not at all, as ASCII with a substitute for every
other byte, and loosely, where any run of bytes stands for some characters.
-/

namespace DiskCatalog.Text

/-- The character that stands for what cannot be read. -/
def substitute : Char := Char.ofNat 0xFFFD

def ofUtf8? (bytes : List UInt8) : Option String :=
  String.fromUTF8? ⟨bytes.toArray⟩

def asciiChars (bytes : List UInt8) : List Char :=
  bytes.map fun b => if b.toNat < 0x80 then Char.ofNat b.toNat else substitute

def isContinuation (b : UInt8) : Bool :=
  0x80 ≤ b.toNat && b.toNat < 0xC0

/-- The bits that a byte at the head of a sequence gives to its character. -/
def leadBits (b : UInt8) : Nat :=
  if b.toNat < 0xE0 then b.toNat - 0xC0
  else if b.toNat < 0xF0 then b.toNat - 0xE0
  else if b.toNat < 0xF8 then b.toNat - 0xF0
  else if b.toNat < 0xFC then b.toNat - 0xF8
  else if b.toNat < 0xFE then b.toNat - 0xFC
  else 0

/-- The character of a sequence of several bytes; what is none, or should have been shorter, is
substituted. -/
def looseChar (code : Nat) : Char :=
  if code < 0x80 ∨ code = 0xFFFE ∨ code = 0xFFFF ∨ ¬ code.isValidChar then substitute
  else Char.ofNat code

/-- Reads bytes loosely: a sequence goes on as long as there are continuation bytes, and one of
these without a head stands for itself.  `code` is what the sequence at hand has given so far. -/
def looseFrom (code : Option Nat) : List UInt8 → List Char
  | [] => code.toList.map looseChar
  | b :: bytes =>
    if isContinuation b then
      match code with
      | some code => looseFrom (some ((64 * code + (b.toNat - 0x80)) % 2 ^ 32)) bytes
      | none => Char.ofNat b.toNat :: looseFrom none bytes
    else
      code.toList.map looseChar ++
        if b.toNat < 0x80 then Char.ofNat b.toNat :: looseFrom none bytes
        else looseFrom (some (leadBits b)) bytes

def looseChars (bytes : List UInt8) : List Char :=
  looseFrom none bytes

end DiskCatalog.Text
