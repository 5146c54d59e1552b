/-!
# Decimal digits

The 660 decimal digits of Unicode 14 stand in 66 runs of ten, zero first.
-/

namespace DiskCatalog.Text

/-- The zeros of the runs of decimal digits, ascending. -/
def digitZeros : List Nat :=
  [0x30, 0x660, 0x6f0, 0x7c0, 0x966, 0x9e6, 0xa66, 0xae6, 0xb66, 0xbe6, 0xc66, 0xce6, 0xd66, 0xde6,
   0xe50, 0xed0, 0xf20, 0x1040, 0x1090, 0x17e0, 0x1810, 0x1946, 0x19d0, 0x1a80, 0x1a90, 0x1b50,
   0x1bb0, 0x1c40, 0x1c50, 0xa620, 0xa8d0, 0xa900, 0xa9d0, 0xa9f0, 0xaa50, 0xabf0, 0xff10, 0x104a0,
   0x10d30, 0x11066, 0x110f0, 0x11136, 0x111d0, 0x112f0, 0x11450, 0x114d0, 0x11650, 0x116c0,
   0x11730, 0x118e0, 0x11950, 0x11c50, 0x11d50, 0x11da0, 0x16a60, 0x16ac0, 0x16b50, 0x1d7ce,
   0x1d7d8, 0x1d7e2, 0x1d7ec, 0x1d7f6, 0x1e140, 0x1e2f0, 0x1e950, 0x1fbf0]

/-- The value of a decimal digit of any script. -/
def digit? (c : Char) : Option Nat :=
  (digitZeros.find? fun first => first ≤ c.toNat && c.toNat < first + 10).map (c.toNat - ·)

def asciiDigit? (c : Char) : Option Nat :=
  if '0' ≤ c ∧ c ≤ '9' then some (c.toNat - 48) else none

def isAsciiDigit (c : Char) : Bool :=
  (asciiDigit? c).isSome

def digitChar (d : Nat) : Char :=
  Char.ofNat (48 + d % 10)

/-- The value of a row of digits, most significant first, continuing from `acc`. -/
def digitsValue (acc : Nat) (digits : List Nat) : Nat :=
  digits.foldl (fun n d => 10 * n + d) acc

/-- The decimal digits of a number; zero has one digit. -/
def decimal (n : Nat) : List Char :=
  (Nat.toDigits 10 n)

/-- A number with zeros in front up to the given width. -/
def padded (width n : Nat) : List Char :=
  let digits := decimal n
  List.replicate (width - digits.length) '0' ++ digits

def decimalInt (n : Int) : List Char :=
  if n < 0 then '-' :: decimal n.natAbs else decimal n.natAbs

def ofInt (n : Int) : String :=
  String.ofList (decimalInt n)

end DiskCatalog.Text
