import DiskCatalog.Calendar.Date
import DiskCatalog.Power
import DiskCatalog.Text.Digit

/-!
# Reading ISO dates and times

A date is written with or without dashes, by month and day or by week and weekday.  Any one
character divides it from the time, which has two, four or six digits with or without colons, a
fraction behind a point or a comma, and an offset from UTC of the same form behind its sign.
-/

namespace DiskCatalog.Calendar

open Text

/-- A date and time, with its offset from UTC in microseconds when one was written. -/
structure Stamp where
  time : DateTime
  offset : Option Int
  deriving DecidableEq, Repr

/-- Reads exactly `count` ASCII digits. -/
def takeDigits (count : Nat) (s : List Char) : Option (Nat × List Char) :=
  if count ≤ s.length ∧ (s.take count).all isAsciiDigit then
    some (digitsValue 0 ((s.take count).filterMap asciiDigit?), s.drop count)
  else none

/-- Where the character stands that divides the date from the time. -/
def dividerIndex (s : List Char) : Option Nat :=
  if s.length = 7 then some 7
  else if s[4]? = some '-' then
    if s[5]? = some 'W' then
      if s[8]? = some '-' then
        if s.length = 9 then none
        else if s[10]?.any isAsciiDigit then some 8
        else some 10
      else some 8
    else some 10
  else if s[4]? = some 'W' then
    let index := 7 + ((s.drop 7).takeWhile isAsciiDigit).length
    if index < 9 then some index
    else if index % 2 = 0 then some 7
    else some 8
  else some 8

/-- Whether a year has 53 weeks: it starts on a Thursday, or on a Wednesday when it is leap. -/
def hasWeek53 (year : Nat) : Bool :=
  let first := Date.weekday (daysBeforeYear year)
  first == 3 || (first == 2 && isLeap year)

/-- The number of the Monday of the first week of a year, the week that holds its first Thursday. -/
def firstMonday (year : Nat) : Int :=
  let first := daysBeforeYear year
  let weekday := Date.weekday first
  if weekday ≤ 3 then (first : Int) - weekday else (first : Int) + 7 - weekday

/-- The day of a week date, if the week and the weekday exist. -/
def dateOfWeek (year week day : Nat) : Option Date :=
  if year < 1 ∨ week < 1 ∨ 53 < week ∨ (week = 53 ∧ !hasWeek53 year) ∨ day < 1 ∨ 7 < day then none
  else
    let n := firstMonday year + (week - 1) * 7 + (day - 1)
    if n < 0 ∨ calendarDays ≤ n then none else some (Date.ofDayNumber n.toNat)

def readDate (s : List Char) (divider : Nat) : Option Date := do
  let (year, rest) ← takeDigits 4 s
  let (dashed, rest) := match rest with
    | '-' :: t => (true, t)
    | t => (false, t)
  match rest with
  | 'W' :: t =>
    let (week, t) ← takeDigits 2 t
    if s.length - t.length < divider then
      let t ← if dashed then (match t with | '-' :: u => some u | _ => none) else some t
      let (day, _) ← takeDigits 1 t
      dateOfWeek year week day
    else dateOfWeek year week 1
  | _ =>
    let (month, t) ← takeDigits 2 rest
    let t ← if dashed then (match t with | '-' :: u => some u | _ => none) else some t
    let (day, t) ← takeDigits 2 t
    let date : Date := ⟨year, month, day⟩
    if s.length - t.length = divider ∧ date.IsValid then some date else none

/-- A time of day as written: its fields, and whether something was left behind it. -/
structure Clock where
  hour : Nat
  minute : Nat
  second : Nat
  micro : Nat
  junk : Bool
  deriving DecidableEq, Repr

/-- Sets the first, second or third of the two-digit fields of a clock. -/
def Clock.set (c : Clock) (field value : Nat) : Clock :=
  match field with
  | 0 => { c with hour := value }
  | 1 => { c with minute := value }
  | _ => { c with second := value }

/-- Reads a fraction of a second: up to six digits count and further ones are passed over.
`last` tells that nothing follows the text. -/
def readFraction (c : Clock) (last : Bool) (s : List Char) : Option Clock := do
  let count := min 6 s.length
  let (n, rest) ← takeDigits count s
  let junk := match rest.dropWhile isAsciiDigit with
    | [] => !last
    | d :: _ => d.toNat != 0
  some { c with micro := n * tenTo (6 - count), junk }

/-- Reads the two-digit fields of a clock from the given one on, and the fraction behind them. -/
def readFields (last colons : Bool) (c : Clock) (field : Nat) :
    (left : Nat) → List Char → Option Clock
  | 0, s => readFraction c last s
  | left + 1, s => do
    let (n, rest) ← takeDigits 2 s
    let c := c.set field n
    let colons := if field = 0 then rest.head? = some ':' else colons
    match rest with
    | [] => some { c with junk := !last }
    | d :: t =>
      if t = [] ∧ d.toNat < 0x80 then some { c with junk := d.toNat != 0 }
      else if colons ∧ d = ':' then readFields last colons c (field + 1) left t
      else if d = '.' ∨ d = ',' then readFraction c last t
      else if colons then none
      else readFields last colons c (field + 1) left rest

def readClock (last : Bool) (s : List Char) : Option Clock :=
  readFields last true ⟨0, 0, 0, 0, false⟩ 0 3 s

def Clock.toMicros (c : Clock) : Nat :=
  ((c.hour * 60 + c.minute) * 60 + c.second) * microsPerSecond + c.micro

/-- Reads an offset behind its sign.  Without whole seconds there is no offset. -/
def readOffset (negative : Bool) (s : List Char) : Option Int := do
  let c ← readClock true s
  if c.junk then none
  else
    let n : Int := if c.toMicros < microsPerSecond then 0 else c.toMicros
    if microsPerDay ≤ n then none else some (if negative then -n else n)

def readTime (date : Date) (s : List Char) : Option Stamp := do
  let isSign (c : Char) : Bool := c = '+' || c = '-'
  let body := s.takeWhile (!isSign ·)
  let (c, offset) ← match s.dropWhile (!isSign ·) with
    | [] =>
      match readClock true body with
      | some c => if c.junk then none else some (c, none)
      | none => none
    | sign :: t => do
      let c ← readClock false body
      let offset ← readOffset (sign = '-') t
      some (c, some offset)
  let time : DateTime := ⟨date, c.hour, c.minute, c.second, c.micro⟩
  if time.IsValid then some ⟨time, offset⟩ else none

/-- Reads a date with or without a time; a date alone means its midnight. -/
def readIso (s : List Char) : Option Stamp := do
  if s.length < 7 then none
  else
    let divider ← dividerIndex s
    let date ← readDate s divider
    match s.drop divider with
    | [] => some ⟨⟨date, 0, 0, 0, 0⟩, none⟩
    | _ :: t => readTime date t

end DiskCatalog.Calendar
