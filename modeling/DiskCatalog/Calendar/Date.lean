/-!
# Days and times of the calendar

The calendar runs from the first day of the year 1 to the last day of 9999.  A day is numbered from
the first one, and a `DateTime` has an instant: its microseconds since the calendar began.
-/

namespace DiskCatalog.Calendar

def isLeap (year : Nat) : Bool :=
  year % 4 == 0 && (year % 100 != 0 || year % 400 == 0)

/-- The number of days in a month; months run from 1 to 12. -/
def daysInMonth (year month : Nat) : Nat :=
  match month with
  | 2 => if isLeap year then 29 else 28
  | 4 | 6 | 9 | 11 => 30
  | _ => 31

def daysBeforeYear (year : Nat) : Nat :=
  let y := year - 1
  365 * y + y / 4 - y / 100 + y / 400

/-- The number of days of a year before a month. -/
def daysBeforeMonth (year month : Nat) : Nat :=
  (List.range (month - 1)).foldr (fun m days => daysInMonth year (m + 1) + days) 0

structure Date where
  year : Nat
  month : Nat
  day : Nat
  deriving DecidableEq, Repr

namespace Date

def IsValid (d : Date) : Prop :=
  1 ≤ d.year ∧ d.year ≤ 9999 ∧ 1 ≤ d.month ∧ d.month ≤ 12 ∧ 1 ≤ d.day ∧
    d.day ≤ daysInMonth d.year d.month

instance (d : Date) : Decidable d.IsValid :=
  inferInstanceAs (Decidable (_ ∧ _))

/-- The number of days from the first day of the calendar. -/
def dayNumber (d : Date) : Nat :=
  daysBeforeYear d.year + daysBeforeMonth d.year d.month + (d.day - 1)

/-- The year that a day lies in: the guess from the mean length of a year is off by at most one. -/
def yearOfDay (n : Nat) : Nat :=
  let guess := n * 400 / 146097
  if daysBeforeYear (guess + 2) ≤ n then guess + 2
  else if daysBeforeYear (guess + 1) ≤ n then guess + 1
  else guess

/-- The month and the day of the month of a day counted from the first day of a year. -/
def monthOfDay (year : Nat) (month : Nat) : (left : Nat) → Nat → Nat × Nat
  | 0, n => (month, n + 1)
  | left + 1, n =>
    if n < daysInMonth year month then (month, n + 1)
    else monthOfDay year (month + 1) left (n - daysInMonth year month)

def ofDayNumber (n : Nat) : Date :=
  let year := yearOfDay n
  let (month, day) := monthOfDay year 1 11 (n - daysBeforeYear year)
  ⟨year, month, day⟩

/-- The day of the week of a numbered day; Monday is 0. -/
def weekday (n : Nat) : Nat :=
  n % 7

end Date

def calendarDays : Nat := 3652059

def microsPerSecond : Nat := 1000000

def microsPerDay : Nat := 86400 * microsPerSecond

/-- A day and a time of day, to the microsecond. -/
structure DateTime where
  date : Date
  hour : Nat
  minute : Nat
  second : Nat
  micro : Nat
  deriving DecidableEq, Repr

namespace DateTime

def IsValid (t : DateTime) : Prop :=
  t.date.IsValid ∧ t.hour < 24 ∧ t.minute < 60 ∧ t.second < 60 ∧ t.micro < microsPerSecond

instance (t : DateTime) : Decidable t.IsValid :=
  inferInstanceAs (Decidable (_ ∧ _))

def toMicros (t : DateTime) : Nat :=
  ((t.date.dayNumber * 24 + t.hour) * 60 + t.minute) * 60 * microsPerSecond +
    t.second * microsPerSecond + t.micro

/-- The day and time of an instant, if it lies in the calendar. -/
def ofMicros? (n : Int) : Option DateTime :=
  if n < 0 ∨ calendarDays * microsPerDay ≤ n then none
  else
    let n := n.toNat
    let rest := n % microsPerDay
    some {
      date := Date.ofDayNumber (n / microsPerDay)
      hour := rest / (3600 * microsPerSecond)
      minute := rest / (60 * microsPerSecond) % 60
      second := rest / microsPerSecond % 60
      micro := rest % microsPerSecond }

end DateTime

/-- The instant from which file times are counted: the start of 1970. -/
def epochMicros : Int :=
  719162 * microsPerDay

def DateTime.epoch : DateTime :=
  ⟨⟨1970, 1, 1⟩, 0, 0, 0, 0⟩

end DiskCatalog.Calendar
