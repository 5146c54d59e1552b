import DiskCatalog.Text.Blank
import DiskCatalog.Text.Digit

/-!
# Integers written as text

An integer is an optional sign and decimal digits of any script, with single underscores between
digits and blanks around the whole.  Numerals of more than 4300 digits are refused.
-/

namespace DiskCatalog.Text

/-- A character of a numeral in ASCII: digits and blanks of other scripts become ASCII ones. -/
def plainChar (c : Char) : Char :=
  if c.toNat < 0x7F then c
  else if isBlank c then ' '
  else match digit? c with
    | some d => digitChar d
    | none => '?'

/-- The blanks that may stand around a numeral once it is written in ASCII. -/
def isNumeralBlank (c : Char) : Bool :=
  c = ' ' || ('\t' ≤ c && c ≤ '\r')

def trimNumeral (s : List Char) : List Char :=
  ((s.dropWhile isNumeralBlank).reverse.dropWhile isNumeralBlank).reverse

/-- Splits off a leading sign; the flag tells whether it was a minus. -/
def splitSign : List Char → Bool × List Char
  | '-' :: s => (true, s)
  | '+' :: s => (false, s)
  | s => (false, s)

/-- The most digits that an integer may be written with. -/
def maxDigits : Nat := 4300

inductive NumeralFault where
  | malformed
  | tooLong (digits : Nat)
  deriving DecidableEq, Repr

/-- The digits at the start of a text and what follows them.  An underscore is passed over when it
stands between two digits; `none` stands for a misplaced one. -/
def digitRun (afterDigit : Bool) : List Char → Option (List Nat × List Char)
  | [] => some ([], [])
  | c :: s =>
    match asciiDigit? c with
    | some d => (digitRun true s).map fun run => (d :: run.1, run.2)
    | none =>
      if c ≠ '_' then some ([], c :: s)
      else if afterDigit && s.head?.any isAsciiDigit then digitRun false s
      else none

def readInt (s : List Char) : Except NumeralFault Int :=
  let (negative, body) := splitSign (trimNumeral (s.map plainChar))
  match digitRun false body with
  | none => .error .malformed
  | some ([], _) => .error .malformed
  | some (digits, rest) =>
    if maxDigits < digits.length then .error (.tooLong digits.length)
    else if rest = [] then
      let n : Int := digitsValue 0 digits
      .ok (if negative then -n else n)
    else .error .malformed

end DiskCatalog.Text
