import DiskCatalog.Binary64.Reading
import DiskCatalog.Failure
import DiskCatalog.Value.Basic

/-!
# Values as numbers

An integer is wanted of a value, or a number, or a truth value: a number is cut or rounded, a text
is read, bytes are read as a text in ASCII, and everything else is refused.
-/

namespace DiskCatalog

def integerOfText (s : String) : Except NumberFault Int :=
  match Text.readInt s.toList with
  | .ok n => .ok n
  | .error .malformed => .error (.notAnInteger s)
  | .error (.tooLong digits) => .error (.tooManyDigits digits)

def integerOfBytes (bytes : List UInt8) : Except NumberFault Int :=
  match Text.readInt (Text.asciiChars bytes) with
  | .ok n => .ok n
  | .error .malformed => .error (.notAnIntegerBytes bytes)
  | .error (.tooLong digits) => .error (.tooManyDigits digits)

def integerOfFloat (x : Binary64) : Except NumberFault Int :=
  match x with
  | .finite .. => .ok (x.truncate?.getD 0)
  | .infinite _ => .error .infiniteInteger
  | .nan => .error .undefinedInteger

namespace Value

def toInteger : Value → Except NumberFault Int
  | .bool b => .ok (if b then 1 else 0)
  | .int n => .ok n
  | .float x => integerOfFloat x
  | .text s => integerOfText s
  | .bytes content => integerOfBytes content
  | v => .error (.noIntegerKind v.kindName)

/-- The number nearest to a value; an integer that would be infinite is refused. -/
def toNumber : Value → Except NumberFault Binary64
  | .bool b => .ok (Binary64.ofInt (if b then 1 else 0))
  | .int n =>
    match Binary64.ofInt n with
    | .infinite _ => .error .beyondBinary64
    | x => .ok x
  | .float x => .ok x
  | .text s =>
    match Binary64.read? s.toList with
    | some x => .ok x
    | none => .error (.notANumber s)
  | .bytes content =>
    match Binary64.read? (Text.asciiChars content) with
    | some x => .ok x
    | none => .error (.notANumberBytes content)
  | v => .error (.noNumberKind v.kindName)

/-- The truth value that a value stands for: itself, or one of eight words. -/
def toBool? : Value → Option Bool
  | .bool b => some b
  | v =>
    let word := Text.lowerKeyword (Text.trimString v.shown)
    if ["1", "true", "yes", "on"].contains word then some true
    else if ["0", "false", "no", "off"].contains word then some false
    else none

/-- Whether a value is equal to an integer as a number. -/
def equalsInt (v : Value) (n : Int) : Bool :=
  match v with
  | .bool b => n == (if b then 1 else 0)
  | .int m => m == n
  | .float x => x.toInt? == some n
  | _ => false

end Value

end DiskCatalog
