import DiskCatalog.Binary64.Basic
import DiskCatalog.Text.Case
import DiskCatalog.Text.Numeral

/-!
# Numbers written as text

A number is an optional sign, digits with a point anywhere among them and an optional exponent, or
one of the words `inf`, `infinity` and `nan` in any case.  Single underscores may stand between
digits and blanks around the whole.
-/

namespace DiskCatalog.Binary64

open Text

/-- The number `digits * 10 ^ exponent`, rounded.  Far outside the range no power is computed. -/
def ofDecimal (negative : Bool) (digits : List Nat) (exponent : Int) : Binary64 :=
  let significant := digits.dropWhile (· = 0)
  let scale : Int := significant.length + exponent
  if significant = [] then ofZero negative
  else if 400 < scale then .infinite negative
  else if scale < -400 then ofZero negative
  else
    let n := digitsValue 0 significant
    ofQuotient negative (n * tenTo exponent.toNat) (tenTo (-exponent).toNat)

/-- A text without its underscores, each of which has to stand between two digits. -/
def dropUnderscores (afterDigit : Bool) : List Char → Option (List Char)
  | [] => some []
  | c :: s =>
    if c ≠ '_' then (dropUnderscores (isAsciiDigit c) s).map (c :: ·)
    else if afterDigit && s.head?.any isAsciiDigit then dropUnderscores false s
    else none

/-- The digits at the start of a text and what follows them. -/
def leadingDigits (s : List Char) : List Nat × List Char :=
  ((s.takeWhile isAsciiDigit).filterMap asciiDigit?, s.dropWhile isAsciiDigit)

/-- The exponent at the start of a text, if one stands there, and what follows it. -/
def splitExponent (s : List Char) : Int × List Char :=
  match s with
  | c :: t =>
    if c = 'e' ∨ c = 'E' then
      let (negative, body) := splitSign t
      match leadingDigits body with
      | ([], _) => (0, s)
      | (ds, rest) =>
        let n : Int := digitsValue 0 ds
        (if negative then -n else n, rest)
    else (0, s)
  | [] => (0, [])

/-- Reads digits, a point and an exponent that make up the whole text. -/
def readDecimal (negative : Bool) (s : List Char) : Option Binary64 :=
  let (whole, rest) := leadingDigits s
  let (fraction, rest) := match rest with
    | '.' :: t => leadingDigits t
    | _ => ([], rest)
  if whole = [] ∧ fraction = [] then none
  else match splitExponent rest with
    | (exponent, []) => some (ofDecimal negative (whole ++ fraction) (exponent - fraction.length))
    | _ => none

/-- Reads a number, or one of the words for what is no finite number. -/
def read? (s : List Char) : Option Binary64 :=
  match dropUnderscores false (trimNumeral (s.map plainChar)) with
  | none => none
  | some text =>
    let (negative, body) := splitSign text
    let word := body.map foldAscii
    if word = ['i', 'n', 'f'] ∨ word = ['i', 'n', 'f', 'i', 'n', 'i', 't', 'y'] then
      some (.infinite negative)
    else if word = ['n', 'a', 'n'] then some .nan
    else readDecimal negative body

end DiskCatalog.Binary64
