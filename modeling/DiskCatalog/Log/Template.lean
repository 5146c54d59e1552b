import DiskCatalog.Failure
import DiskCatalog.Value.Number

/-!
# Message templates

A template holds directives: a percent sign, perhaps the name of a value in brackets, flags, a
width, a precision, and a letter that says how the value is written.  Values are used in order, or
by name; each has to be used, and each directive needs one.  Two percent signs stand for one.
-/

namespace DiskCatalog.Log.Template

open Text

structure Directive where
  left : Bool := false
  plus : Bool := false
  blank : Bool := false
  alternate : Bool := false
  zero : Bool := false
  width : Nat := 0
  precision : Option Nat := none
  deriving Repr

structure Supply where
  queue : List Value
  names : Option (List (String × Value))

/-- Values in order; a single object gives its fields by name. -/
def Supply.of : List Value → Supply
  | [.object (f :: fields)] => ⟨[.object (f :: fields)], some (f :: fields)⟩
  | values => ⟨values, none⟩

def refuse (kind : FailureKind) (text : String) : Except Failure α :=
  .error (.other kind text)

def Supply.take (s : Supply) : Except Failure (Value × Supply) :=
  match s.queue with
  | [] => refuse .type "not enough arguments for format string"
  | v :: queue => .ok (v, { s with queue })

def Supply.turnTo (s : Supply) (name : String) : Except Failure Supply :=
  match s.names with
  | none => refuse .type "format requires a mapping"
  | some fields =>
    match fields.lookup name with
    | some v => .ok { s with queue := [v] }
    | none => refuse .key (quoted name)

def pad (d : Directive) (numeric : Bool) (sign body : List Char) : List Char :=
  let missing := d.width - (sign.length + body.length)
  if d.left then sign ++ body ++ List.replicate missing ' '
  else if d.zero && numeric then sign ++ List.replicate missing '0' ++ body
  else List.replicate missing ' ' ++ sign ++ body

def signChars (d : Directive) (negative : Bool) : List Char :=
  if negative then ['-'] else if d.plus then ['+'] else if d.blank then [' '] else []

/-- Zeros in front of digits, up to a precision. -/
def leadingZeros (d : Directive) (digits : List Char) : List Char :=
  List.replicate (d.precision.getD 0 - digits.length) '0' ++ digits

def writeInteger (d : Directive) (lead digits : List Char) (negative : Bool) : List Char :=
  pad d true (signChars d negative ++ if d.alternate then lead else []) (leadingZeros d digits)

/-- The digits of a number in a base of at most sixteen. -/
def digitsInBase (base n : Nat) : List Char :=
  Nat.toDigits base n

def padLeft (width : Nat) (digits : List Char) : List Char :=
  List.replicate (width - digits.length) '0' ++ digits

/-- A nonnegative rational with some places behind the point, a half going to the even side. -/
def fixedPlaces (places : Nat) (alternate : Bool) (num den : Nat) : List Char :=
  let digits := padLeft (places + 1) (decimal (Binary64.roundDiv (num * tenTo places) den))
  let whole := digits.take (digits.length - places)
  if places = 0 then whole ++ (if alternate then ['.'] else [])
  else whole ++ '.' :: digits.drop (digits.length - places)

/-- The power of ten in front of which a rational, rounded to some digits, has one digit. -/
def leadingPower (digits num den : Nat) : Int :=
  let guess : Int := (decimal num).length - (decimal den).length
  let below := fun (e : Int) =>
    num * tenTo (-e).toNat < den * tenTo e.toNat
  let power := if below guess then guess - 1 else guess
  let shift := (digits : Int) - 1 - power
  let rounded := Binary64.roundDiv (num * tenTo shift.toNat) (den * tenTo (-shift).toNat)
  if tenTo digits ≤ rounded then power + 1 else power

def exponentChars (power : Int) : List Char :=
  'e' :: (if power < 0 then '-' else '+') :: padded 2 power.natAbs

/-- A nonnegative rational with one digit before the point and a power of ten. -/
def scientificPlaces (places : Nat) (alternate : Bool) (num den : Nat) : List Char :=
  if num = 0 then fixedPlaces places alternate 0 1 ++ exponentChars 0
  else
    let power := leadingPower (places + 1) num den
    fixedPlaces places alternate (num * tenTo (-power).toNat) (den * tenTo power.toNat) ++
      exponentChars power

/-- The digits without zeros at the end of the places. -/
def dropZeroPlaces (s : List Char) : List Char :=
  let (mantissa, exponent) := s.span (· ≠ 'e')
  if mantissa.contains '.' then
    let kept := mantissa.reverse.dropWhile (· = '0')
    (match kept with
      | '.' :: whole => whole.reverse
      | kept => kept.reverse) ++ exponent
  else s

/-- The shorter of the two forms for a number of significant digits. -/
def generalPlaces (precision : Nat) (alternate : Bool) (num den : Nat) : List Char :=
  let digits := max 1 precision
  let power := if num = 0 then 0 else leadingPower digits num den
  let s :=
    if power < -4 ∨ (digits : Int) ≤ power then scientificPlaces (digits - 1) alternate num den
    else fixedPlaces ((digits : Int) - 1 - power).toNat alternate num den
  if alternate then s else dropZeroPlaces s

def writeNumber (d : Directive) (letter : Char) (x : Binary64) : List Char :=
  let precision := d.precision.getD 6
  let body := match x with
    | .nan => ['n', 'a', 'n']
    | .infinite _ => ['i', 'n', 'f']
    | .finite _ m e =>
      let (num, den) := Binary64.magnitude m e
      match letter.toLower with
      | 'e' => scientificPlaces precision d.alternate num den
      | 'f' => fixedPlaces precision d.alternate num den
      | _ => generalPlaces precision d.alternate num den
  let negative := match x with
    | .finite negative _ _ => negative
    | .infinite negative => negative
    | .nan => false
  pad d true (signChars d negative) (if letter.isUpper then body.map raiseAscii else body)

/-- A text as messages quote it, with ASCII characters only. -/
def asciiOnly (s : String) : List Char :=
  s.toList.flatMap fun c =>
    if c.toNat < 0x80 then [c]
    else if c.toNat < 0x100 then '\\' :: 'x' :: hexadecimal 2 c.toNat
    else if c.toNat < 0x10000 then '\\' :: 'u' :: hexadecimal 4 c.toNat
    else '\\' :: 'U' :: hexadecimal 8 c.toNat

/-- Writes a text, cut to the precision. -/
def writeText (d : Directive) (s : List Char) : List Char :=
  pad d false [] (match d.precision with
    | some n => s.take n
    | none => s)

/-- The whole number that a value is, or is cut to. -/
def wholeNumber (letter : Char) (v : Value) : Except Failure Int :=
  match v with
  | .bool b => .ok (if b then 1 else 0)
  | .int n => .ok n
  | .float x =>
    if ['d', 'i', 'u'].contains letter then (integerOfFloat x).mapError .number
    else refuse .type ("%" ++ letter.toString ++ " format: an integer is required, not float")
  | v =>
    refuse .type ("%" ++ letter.toString ++ " format: " ++
      (if ['d', 'i', 'u'].contains letter then "a real number" else "an integer") ++
      " is required, not " ++ v.kindName)

def writeCharacter (d : Directive) (v : Value) : Except Failure (List Char) :=
  let d := { d with precision := none }
  match v with
  | .text s =>
    match s.toList with
    | [c] => .ok (writeText d [c])
    | _ => refuse .type "%c requires int or char"
  | .int n =>
    if 0 ≤ n ∧ n < 0x110000 then .ok (writeText d [Char.ofNat n.toNat])
    else refuse .overflow "%c arg not in range(0x110000)"
  | .bool b => .ok (writeText d [Char.ofNat (if b then 1 else 0)])
  | _ => refuse .type "%c requires int or char"

def writeValue (d : Directive) (letter : Char) (v : Value) : Except Failure (List Char) := do
  match letter with
  | 's' => .ok (writeText d v.shown.toList)
  | 'r' => .ok (writeText d v.quoted.toList)
  | 'a' => .ok (writeText d (asciiOnly v.quoted))
  | 'c' => writeCharacter d v
  | 'd' | 'i' | 'u' =>
    let n ← wholeNumber letter v
    .ok (writeInteger d [] (decimal n.natAbs) (n < 0))
  | 'o' =>
    let n ← wholeNumber letter v
    .ok (writeInteger d ['0', 'o'] (digitsInBase 8 n.natAbs) (n < 0))
  | 'x' =>
    let n ← wholeNumber letter v
    .ok (writeInteger d ['0', 'x'] (digitsInBase 16 n.natAbs) (n < 0))
  | 'X' =>
    let n ← wholeNumber letter v
    .ok (writeInteger d ['0', 'X'] ((digitsInBase 16 n.natAbs).map raiseAscii) (n < 0))
  | _ =>
    match v with
    | .bool _ | .int _ | .float _ =>
      let x ← v.toNumber.mapError .number
      .ok (writeNumber d letter x)
    | v => refuse .type ("must be real number, not " ++ v.kindName)

def letters : List Char :=
  ['s', 'r', 'a', 'c', 'd', 'i', 'u', 'o', 'x', 'X', 'e', 'E', 'f', 'F', 'g', 'G']

def readFlags (d : Directive) : List Char → Directive × List Char
  | '-' :: s => readFlags { d with left := true } s
  | '+' :: s => readFlags { d with plus := true } s
  | ' ' :: s => readFlags { d with blank := true } s
  | '#' :: s => readFlags { d with alternate := true } s
  | '0' :: s => readFlags { d with zero := true } s
  | s => (d, s)

/-- A number at the head of a text, none being zero. -/
def readCount (s : List Char) : Nat × List Char :=
  (digitsValue 0 ((s.takeWhile isAsciiDigit).filterMap asciiDigit?), s.dropWhile isAsciiDigit)

def takeCount (supply : Supply) : Except Failure (Int × Supply) := do
  let (v, supply) ← supply.take
  match v with
  | .int n => .ok (n, supply)
  | .bool b => .ok ((if b then 1 else 0), supply)
  | _ => refuse .type "* wants int"

def readWidth (d : Directive) (supply : Supply) :
    List Char → Except Failure (Directive × Supply × List Char)
  | '*' :: s => do
    let (n, supply) ← takeCount supply
    .ok ({ d with left := d.left || n < 0, width := n.natAbs }, supply, s)
  | s =>
    let (n, s) := readCount s
    .ok ({ d with width := n }, supply, s)

def readPrecision (d : Directive) (supply : Supply) :
    List Char → Except Failure (Directive × Supply × List Char)
  | '.' :: '*' :: s => do
    let (n, supply) ← takeCount supply
    .ok ({ d with precision := some n.toNat }, supply, s)
  | '.' :: s =>
    let (n, s) := readCount s
    .ok ({ d with precision := some n }, supply, s)
  | s => .ok (d, supply, s)

/-- The size mark that may stand before the letter. -/
def skipSize : List Char → List Char
  | 'h' :: s | 'l' :: s | 'L' :: s => s
  | s => s

/-- The name in brackets, after the opening one; brackets within it are counted. -/
def readName (depth : Nat) : List Char → Option (List Char × List Char)
  | [] => none
  | c :: s =>
    if c = ')' then
      match depth with
      | 0 => some ([], s)
      | depth + 1 => (readName depth s).map fun (name, rest) => (c :: name, rest)
    else
      (readName (if c = '(' then depth + 1 else depth) s).map fun (name, rest) =>
        (c :: name, rest)

/-- Writes the directive behind a percent sign.  `size` is the length of the template. -/
def writeDirective (size : Nat) (supply : Supply) (s : List Char) :
    Except Failure (List Char × Supply × List Char) := do
  let (supply, s) ← match s with
    | '(' :: t =>
      if supply.names.isNone then refuse .type "format requires a mapping"
      else match readName 0 t with
        | none => refuse .value "incomplete format key"
        | some (name, t) => (supply.turnTo (String.ofList name)).map fun supply => (supply, t)
    | s => .ok (supply, s)
  let (d, s) := readFlags {} s
  let (d, supply, s) ← readWidth d supply s
  let (d, supply, s) ← readPrecision d supply s
  match skipSize s with
  | [] => refuse .value "incomplete format"
  | letter :: s => do
    let (v, supply) ← supply.take
    if letters.contains letter then .ok (← writeValue d letter v, supply, s)
    else refuse .value ("unsupported format character " ++
      (if 0x20 ≤ letter.toNat ∧ letter.toNat < 0x7F then "'" ++ letter.toString ++ "'"
        else "'?'") ++ " (0x" ++ String.ofList (Nat.toDigits 16 letter.toNat) ++
      ") at index " ++ String.ofList (decimal (size - s.length - 1)))

/-- Writes a template of at most so many characters. -/
def writeChars (size : Nat) (supply : Supply) :
    Nat → List Char → Except Failure (List Char × Supply)
  | left + 1, '%' :: '%' :: s => do
    let (rest, supply) ← writeChars size supply left s
    .ok ('%' :: rest, supply)
  | left + 1, '%' :: s => do
    let (text, supply, s) ← writeDirective size supply s
    let (rest, supply) ← writeChars size supply left s
    .ok (text ++ rest, supply)
  | left + 1, c :: s => do
    let (rest, supply) ← writeChars size supply left s
    .ok (c :: rest, supply)
  | _, _ => .ok ([], supply)

/-- The message that a template gives for some values; without any it stands for itself. -/
def fill (template : String) (values : List Value) : Except Failure String := do
  if values.isEmpty then .ok template
  else
    let s := template.toList
    let (text, supply) ← writeChars s.length (.of values) s.length s
    if supply.names.isNone ∧ !supply.queue.isEmpty then
      refuse .type "not all arguments converted during string formatting"
    else .ok (String.ofList text)

end DiskCatalog.Log.Template
