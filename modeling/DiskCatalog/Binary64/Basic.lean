import DiskCatalog.Power

/-!
# Binary64 numbers

A finite number is a sign, a significand and a power of two; all arithmetic is exact and rounded
once, to the nearest number and to an even significand on a tie.  `ofRat` is the rounding and
`toRat?` the value, so every operation is `ofRat` of the exact result.
-/

namespace DiskCatalog

/-- A number with a significand of 53 bits and an exponent of 11 bits. -/
inductive Binary64 where
  /-- The number `significand * 2 ^ exponent`, or its negation. -/
  | finite (negative : Bool) (significand : Nat) (exponent : Int)
  | infinite (negative : Bool)
  | nan
  deriving DecidableEq, Repr, Inhabited

namespace Binary64

def minExponent : Int := -1074

def maxExponent : Int := 971

def ofZero (negative : Bool) : Binary64 :=
  .finite negative 0 minExponent

/-- The quotient of two naturals, rounded to the nearest natural and to even on a tie. -/
def roundDiv (num den : Nat) : Nat :=
  let q := num / den
  let r := num % den
  if 2 * r < den then q
  else if den < 2 * r then q + 1
  else if q % 2 = 0 then q else q + 1

/-- `num / den` in units of `2 ^ exponent`, rounded. -/
def roundedIn (exponent : Int) (num den : Nat) : Nat :=
  roundDiv (num * twoTo (-exponent).toNat) (den * twoTo exponent.toNat)

/-- `num / den` in units of `2 ^ exponent`, cut. -/
def cutIn (exponent : Int) (num den : Nat) : Nat :=
  num * twoTo (-exponent).toNat / (den * twoTo exponent.toNat)

/-- The exponent in whose units `num / den` has 53 bits, or the least exponent. -/
def unitExponent (num den : Nat) : Int :=
  let guess := (num.log2 : Int) - (den.log2 : Int) - 52
  let fitted := if cutIn guess num den < twoTo 52 then guess - 1 else guess
  max minExponent fitted

/-- The number nearest to `num / den`; too large a quotient is infinite. -/
def ofQuotient (negative : Bool) (num den : Nat) : Binary64 :=
  if num = 0 then ofZero negative
  else
    let e := unitExponent num den
    let m := roundedIn e num den
    let (m, e) := if m = twoTo 53 then (twoTo 52, e + 1) else (m, e)
    if maxExponent < e then .infinite negative else .finite negative m e

def ofRat (q : Rat) : Binary64 :=
  ofQuotient (q < 0) q.num.natAbs q.den

def ofInt (n : Int) : Binary64 :=
  ofQuotient (n < 0) n.natAbs 1

/-- The number that 64 bits stand for: a sign, eleven bits of the exponent and the significand
without its first bit, which only numbers with the least exponent may lack. -/
def ofBits (bits : Nat) : Binary64 :=
  let negative := bits / twoTo 63 % 2 == 1
  let exponent : Nat := bits / twoTo 52 % twoTo 11
  let fraction := bits % twoTo 52
  if exponent = 0 then .finite negative fraction minExponent
  else if exponent < 2047 then .finite negative (twoTo 52 + fraction) (minExponent + exponent - 1)
  else if fraction = 0 then .infinite negative
  else .nan

/-- The magnitude of a finite number as a quotient of naturals. -/
def magnitude (significand : Nat) (exponent : Int) : Nat × Nat :=
  (significand * twoTo exponent.toNat, twoTo (-exponent).toNat)

def toRat? : Binary64 → Option Rat
  | .finite negative m e =>
    let (num, den) := magnitude m e
    some (mkRat (if negative then -(num : Int) else num) den)
  | _ => none

def isNegative : Binary64 → Bool
  | .finite negative m _ => negative && m != 0
  | .infinite negative => negative
  | .nan => false

def isZero : Binary64 → Bool
  | .finite _ m _ => m == 0
  | _ => false

def isAboveZero : Binary64 → Bool
  | .nan => false
  | x => !x.isNegative && !x.isZero

/-- The integer part of a finite number, cut toward zero. -/
def truncate? : Binary64 → Option Int
  | .finite negative m e =>
    let n : Int := cutIn 0 (magnitude m e).1 (magnitude m e).2
    some (if negative then -n else n)
  | _ => none

/-- The integer that a finite number is equal to, if there is one. -/
def toInt? (x : Binary64) : Option Int :=
  match x.toRat? with
  | some q => if q.den = 1 then some q.num else none
  | none => none

/-- How a number compares with a rational; a number that is none compares with nothing. -/
def compareRat (x : Binary64) (q : Rat) : Option Ordering :=
  match x with
  | .finite .. => x.toRat?.map fun v => if v < q then .lt else if v = q then .eq else .gt
  | .infinite negative => some (if negative then .lt else .gt)
  | .nan => none

def add (x y : Binary64) : Binary64 :=
  match x.toRat?, y.toRat? with
  | some a, some b => ofRat (a + b)
  | none, _ => x
  | _, none => y

/-- The product of two finite numbers; the sign of a zero is not kept. -/
def mul (x y : Binary64) : Binary64 :=
  match x.toRat?, y.toRat? with
  | some a, some b => ofRat (a * b)
  | none, _ => x
  | _, none => y

/-- The quotient of a number by a positive integer. -/
def divNat (x : Binary64) (n : Nat) : Binary64 :=
  match x with
  | .finite negative m e => ofQuotient negative (magnitude m e).1 ((magnitude m e).2 * n)
  | other => other

end Binary64

end DiskCatalog
