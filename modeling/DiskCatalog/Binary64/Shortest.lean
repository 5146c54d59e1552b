import DiskCatalog.Binary64.Basic
import DiskCatalog.Text.Digit

/-!
# The shortest text of a number

`Binary64.digits` selects the fewest decimal digits that read back to a number, and of those the
nearest to it.  `Binary64.toText` lays them out: positionally from 10⁻⁴ up to 10¹⁶, otherwise with
a signed exponent of at least two digits.
-/

namespace DiskCatalog.Binary64

/-- The decimal number `digits * 10 ^ exponent`. -/
structure Decimal where
  digits : Nat
  exponent : Int
  deriving DecidableEq, Repr

/-- How `a * 10 ^ i` compares with `n * 2 ^ j`. -/
def compareScaled (a : Nat) (i : Int) (n : Nat) (j : Int) : Ordering :=
  compare (a * tenTo i.toNat * twoTo (-j).toNat) (n * twoTo j.toNat * tenTo (-i).toNat)

/-- Whether a decimal is rounded to the number `m * 2 ^ e`.  Below a power of two the next number
is only half as far away as above it. -/
def readsBack (m : Nat) (e : Int) (d : Decimal) : Bool :=
  let low := if m = twoTo 52 ∧ minExponent < e then 4 * m - 1 else 4 * m - 2
  let high := 4 * m + 2
  let closed := m % 2 == 0
  let below := compareScaled d.digits d.exponent low (e - 2)
  let above := compareScaled d.digits d.exponent high (e - 2)
  (below == .gt || (closed && below == .eq)) && (above == .lt || (closed && above == .eq))

/-- The least `k` with `m * 2 ^ e < 10 ^ k`, for a positive number. -/
def decimalScale (m : Nat) (e : Int) : Int :=
  -- 1233 / 4096 lies just above log₁₀ 2, so the guess is at most one too small or too large
  let guess := Int.fdiv ((m.log2 + e) * 1233) 4096
  let fits (k : Int) : Bool := compareScaled 1 k m e == .gt
  if fits (guess - 1) then guess - 1
  else if fits guess then guess
  else if fits (guess + 1) then guess + 1
  else guess + 2

/-- The neighbours of `m * 2 ^ e` on the grid `10 ^ k`: the lower and the upper. -/
def gridNeighbours (m : Nat) (e k : Int) : Decimal × Decimal :=
  let num := m * twoTo e.toNat * tenTo (-k).toNat
  let den := twoTo (-e).toNat * tenTo k.toNat
  (⟨num / den, k⟩, ⟨num / den + 1, k⟩)

/-- The decimal of `count` digits that reads back and is nearest; an exact tie goes to even. -/
def nearestOfLength (m : Nat) (e scale : Int) (count : Nat) : Option Decimal :=
  let (low, high) := gridNeighbours m e (scale - count)
  match readsBack m e low, readsBack m e high with
  | false, false => none
  | true, false => some low
  | false, true => some high
  | true, true =>
    -- twice the number against the sum of the two neighbours
    match compareScaled (low.digits + high.digits) low.exponent (2 * m) e with
    | .gt => some low
    | .lt => some high
    | .eq => some (if low.digits % 2 = 0 then low else high)

/-- The digits of a positive number `m * 2 ^ e`: as few as read back. -/
def digits (m : Nat) (e : Int) : Decimal :=
  let scale := decimalScale m e
  match (List.range 17).findSome? fun n => nearestOfLength m e scale (n + 1) with
  | some d => d
  | none => ⟨m * twoTo e.toNat * Nat.pow 5 (-e).toNat, min e 0⟩

/-- Digits in front of and behind the point, for a decimal of the given digits. -/
def positional (ds : List Char) (point : Int) : List Char :=
  if point ≤ 0 then '0' :: '.' :: List.replicate (-point).toNat '0' ++ ds
  else if (ds.length : Int) ≤ point then
    ds ++ List.replicate (point.toNat - ds.length) '0' ++ ['.', '0']
  else ds.take point.toNat ++ '.' :: ds.drop point.toNat

/-- Digits with an exponent behind them; the exponent is that of the first digit. -/
def scientific (ds : List Char) (exponent : Int) : List Char :=
  let body := match ds with
    | [] => []
    | [d] => [d]
    | d :: rest => d :: '.' :: rest
  let sign := if exponent < 0 then '-' else '+'
  body ++ 'e' :: sign :: Text.padded 2 exponent.natAbs

/-- A row of digits without the zeros at its end. -/
def withoutTrailingZeros (ds : List Char) : List Char :=
  (ds.reverse.dropWhile (· = '0')).reverse

/-- The text of a positive number `m * 2 ^ e`. -/
def magnitudeChars (m : Nat) (e : Int) : List Char :=
  let d := digits m e
  let all := Text.decimal d.digits
  let point : Int := all.length + d.exponent
  let ds := withoutTrailingZeros all
  if -4 < point ∧ point ≤ 16 then positional ds point else scientific ds (point - 1)

def toChars : Binary64 → List Char
  | .nan => ['n', 'a', 'n']
  | .infinite negative => (if negative then ['-'] else []) ++ ['i', 'n', 'f']
  | .finite negative m e =>
    let body := if m = 0 then ['0', '.', '0'] else magnitudeChars m e
    if negative then '-' :: body else body

/-- The shortest text that reads back to the number. -/
def toText (x : Binary64) : String :=
  String.ofList x.toChars

end DiskCatalog.Binary64
