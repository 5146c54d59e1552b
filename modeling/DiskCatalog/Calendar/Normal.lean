import DiskCatalog.Calendar.Iso
import DiskCatalog.Failure
import DiskCatalog.Text.Blank

/-!
# Normalised dates

Dates are shown in UTC with milliseconds.  A text that is no date stands for itself without the
blanks around it, and a date whose instant leaves the calendar is a failure.
-/

namespace DiskCatalog.Calendar

open Text

def DateTime.dayChars (t : DateTime) : List Char :=
  padded 4 t.date.year ++ '-' :: padded 2 t.date.month ++ '-' :: padded 2 t.date.day

def DateTime.clockChars (t : DateTime) : List Char :=
  padded 2 t.hour ++ ':' :: padded 2 t.minute ++ ':' :: padded 2 t.second

/-- The text of an instant in UTC, cut to milliseconds. -/
def DateTime.toMillis (t : DateTime) : String :=
  String.ofList (t.dayChars ++ 'T' :: t.clockChars ++ '.' :: padded 3 (t.micro / 1000) ++ ['Z'])

/-- The text of a date and time; microseconds are left out when there are none. -/
def DateTime.toText (t : DateTime) : String :=
  String.ofList (t.dayChars ++ 'T' :: t.clockChars ++
    (if t.micro = 0 then [] else '.' :: padded 6 t.micro))

/-- The instant of a stamp in UTC; a stamp without an offset is in UTC already. -/
def Stamp.toUtc (s : Stamp) : Except Failure DateTime :=
  match s.offset with
  | none => .ok s.time
  | some offset =>
    match DateTime.ofMicros? (s.time.toMicros - offset) with
    | some t => .ok t
    | none => .error .beyondCalendar

/-- A text with the letter that stands for UTC written as an offset. -/
def spellUtc (s : List Char) : List Char :=
  s.flatMap fun c => if c = 'Z' then ['+', '0', '0', ':', '0', '0'] else [c]

/-- The normal form of the text of a date column. -/
def normalDate (text : Option String) : Except Failure (Option String) :=
  match text with
  | none => .ok none
  | some s =>
    let trimmed := trim s.toList
    if trimmed = [] then .ok none
    else match readIso (spellUtc trimmed) with
      | none => .ok (some (String.ofList trimmed))
      | some stamp => stamp.toUtc.map fun t => some t.toMillis

end DiskCatalog.Calendar
