import DiskCatalog.Binary64.Basic
import DiskCatalog.Calendar.Normal

/-!
# Times of files

The time of a file is kept in nanoseconds since 1970 and handed on as a number of seconds.  Turned
into a date it is rounded to microseconds, a half to the even neighbour.
-/

namespace DiskCatalog.Calendar

/-- The integer nearest to a number, a half going to the even neighbour. -/
def roundHalfEven (q : Rat) : Int :=
  let n : Int := Binary64.roundDiv q.num.natAbs q.den
  if q < 0 then -n else n

/-- The microseconds of a number of seconds.  The whole seconds are exact; the rest is turned into
microseconds as a number of its own before it is rounded. -/
def microsOfSeconds (seconds : Binary64) : Int :=
  let whole := seconds.truncate?.getD 0
  let rest := (seconds.toRat?.getD 0) - whole
  let micros := Binary64.ofRat (rest * 1000000)
  whole * 1000000 + roundHalfEven (micros.toRat?.getD 0)

/-- The date of a number of seconds since 1970. -/
def DateTime.ofSeconds? (seconds : Binary64) : Option DateTime :=
  DateTime.ofMicros? (epochMicros + microsOfSeconds seconds)

def billionth : Binary64 :=
  Binary64.ofQuotient false 1 1000000000

/-- The seconds of a time in nanoseconds: the whole seconds plus the rest, rounded at each step. -/
def fileSeconds (nanos : Int) : Binary64 :=
  (Binary64.ofInt (nanos.fdiv 1000000000)).add
    (billionth.mul (Binary64.ofInt (nanos.fmod 1000000000)))

/-- The date of a file time, in UTC with milliseconds. -/
def fileDate (nanos : Int) : Except Failure String :=
  match DateTime.ofSeconds? (fileSeconds nanos) with
  | some t => .ok t.toMillis
  | none => .error .beyondCalendar

end DiskCatalog.Calendar
