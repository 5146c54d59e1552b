import DiskCatalog.Value.Number

/-!
# Cells of a catalog table

A cell holds nothing, an integer of 64 bits, a number, a text or bytes; a text may be broken, which
is no UTF-8.  What a column keeps of a value depends on the column: an integer column turns whole
numbers and texts that are numbers into integers and numbers, and a text column turns numbers into
their texts.  Bytes are kept by both.
-/

namespace DiskCatalog.Store

inductive Cell where
  | null
  | int (n : Int)
  | real (x : Binary64)
  | text (s : String)
  | blob (bytes : List UInt8)
  | broken (bytes : List UInt8)
  deriving DecidableEq, Repr

/-- What a text column holds where it holds anything. -/
inductive TextCell where
  | text (s : String)
  | blob (bytes : List UInt8)
  | broken (bytes : List UInt8)
  deriving DecidableEq, Repr

instance : Coe String TextCell := ⟨.text⟩

def isStorable (n : Int) : Bool :=
  -(twoTo 63) ≤ n && n < twoTo 63

namespace Cell

def toInteger : Cell → Except NumberFault Int
  | .null => Value.toInteger .null
  | .int n => .ok n
  | .real x => integerOfFloat x
  | .text s => integerOfText s
  | .blob bytes => integerOfBytes bytes
  | .broken bytes => .error (.notAnIntegerBytes bytes)

/-- The bytes of a broken text. -/
def broken? : Cell → Option (List UInt8)
  | .broken bytes => some bytes
  | _ => none

/-- Whether a cell is an integer equal to the given one. -/
def isInt (cell : Cell) (n : Int) : Bool :=
  cell == .int n

/-- Whether a cell is at least an integer: a missing one counts as zero, and texts and bytes are
more than any number. -/
def isAtLeast (cell : Cell) (bound : Int) : Bool :=
  match cell with
  | .null => bound ≤ 0
  | .int n => bound ≤ n
  | .real x => match x.compareRat bound with
    | some .lt | none => false
    | _ => true
  | .text _ | .blob _ | .broken _ => true

/-- Blanks that may stand around a number that is written in a text. -/
def isCellBlank (c : Char) : Bool :=
  c = ' ' || ('\t' ≤ c && c ≤ '\r')

/-- Reads a text that is an integer or a number and nothing else; blanks may stand around it.
The flag tells an integer. -/
def readNumeric (s : List Char) : Option (Bool × Bool × List Nat × Int) :=
  let body := ((s.dropWhile isCellBlank).reverse.dropWhile isCellBlank).reverse
  let (negative, body) := Text.splitSign body
  let (whole, rest) := Binary64.leadingDigits body
  let (pointed, fraction, rest) := match rest with
    | '.' :: t => (true, Binary64.leadingDigits t)
    | _ => (false, [], rest)
  if whole = [] ∧ fraction = [] then none
  else
    let (exponent, left) := Binary64.splitExponent rest
    if left ≠ [] then none
    else some (!pointed && rest.isEmpty, negative, whole ++ fraction,
      exponent - fraction.length)

/-- A number in an integer column: whole numbers inside the integers become integers. -/
def ofReal (x : Binary64) : Cell :=
  match x with
  | .nan => .null
  | _ =>
    match x.toInt? with
    | some n => if -(twoTo 63) < n ∧ n < twoTo 63 - 1 then .int n else .real x
    | none => .real x

def ofNumericText (s : String) : Cell :=
  match readNumeric s.toList with
  | none => .text s
  | some (isInteger, negative, digits, exponent) =>
    let n : Int := Text.digitsValue 0 digits
    let n := if negative then -n else n
    if isInteger && isStorable n then .int n
    else ofReal (Binary64.ofDecimal negative digits exponent)

/-- What an integer column keeps of a cell. -/
def asInteger : Cell → Cell
  | .real x => ofReal x
  | .text s => ofNumericText s
  | cell => cell

def ofValue : Value → Cell
  | .bool b => .int (if b then 1 else 0)
  | .int n => .int n
  | .float x => .real x
  | .text s => .text s
  | .bytes content => .blob content
  | _ => .null

end Cell

/-- The text of a number with at most fifteen digits and at least one on each side of the point. -/
def realText (x : Binary64) : String :=
  match x with
  | .nan => ""
  | .infinite negative => if negative then "-Inf" else "Inf"
  | .finite negative m e =>
    let sign := if negative && m != 0 then ['-'] else []
    if m = 0 then "0.0"
    else
      let scale := Binary64.decimalScale m e
      let (num, den) := Binary64.magnitude m e
      -- the magnitude in units of the fifteenth digit, halves rounded up
      let unit := scale - 15
      let num := num * tenTo (-unit).toNat
      let den := den * tenTo unit.toNat
      let n := (2 * num + den) / (2 * den)
      let (n, scale) := if n = tenTo 15 then (tenTo 14, scale + 1) else (n, scale)
      let digits := Binary64.withoutTrailingZeros (Text.decimal n)
      let body :=
        if -4 < scale ∧ scale ≤ 15 then Binary64.positional digits scale
        else match Binary64.scientific digits (scale - 1) with
          | d :: 'e' :: rest => d :: '.' :: '0' :: 'e' :: rest
          | chars => chars
      String.ofList (sign ++ body)

/-- What a text column keeps of a cell. -/
def Cell.asText : Cell → Option TextCell
  | .null | .real .nan => none
  | .int n => some (Text.ofInt n)
  | .real x => some (realText x)
  | .text s => some s
  | .blob bytes => some (.blob bytes)
  | .broken bytes => some (.broken bytes)

namespace TextCell

def bytes : TextCell → List UInt8
  | .text s => s.toUTF8.toList
  | .blob bytes | .broken bytes => bytes

def isEmpty : TextCell → Bool
  | .text s => s.isEmpty
  | .blob bytes | .broken bytes => bytes.isEmpty

def isText : TextCell → Bool
  | .text _ => true
  | .blob _ | .broken _ => false

/-- The bytes of a broken text. -/
def broken? : TextCell → Option (List UInt8)
  | .broken bytes => some bytes
  | _ => none

/-- A text stands for itself, and bytes are shown as in messages. -/
def shown : TextCell → String
  | .text s => s
  | .blob bytes | .broken bytes => Text.quotedBytes bytes

/-- What is compared with patterns: bytes are read loosely. -/
def read : TextCell → String
  | .text s => s
  | .blob bytes | .broken bytes => String.ofList (Text.looseChars bytes)

def toValue : TextCell → Value
  | .text s => .text s
  | .blob bytes | .broken bytes => .bytes bytes

/-- The value of a text column, nothing where it holds nothing. -/
def toValue? (content : Option TextCell) : Value :=
  content.elim .null toValue

end TextCell

end DiskCatalog.Store
