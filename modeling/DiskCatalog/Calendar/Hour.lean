import DiskCatalog.Binary64.Basic
import DiskCatalog.Calendar.Date
import DiskCatalog.Failure

/-!
# Full hours
-/

namespace DiskCatalog.Calendar

def microsPerHour : Nat := 3600 * microsPerSecond

/-- The microseconds from a moment to the next full hour. -/
def DateTime.microsToNextHour (t : DateTime) : Nat :=
  microsPerHour - t.toMicros % microsPerHour

/-- The shortest time to wait, in microseconds. -/
def leastWait : Nat := 1000

/-- The seconds to wait from a moment to the next full hour, a thousandth at least.  The hour has
to lie in the calendar. -/
def DateTime.secondsToNextHour (t : DateTime) : Except Failure Binary64 :=
  match DateTime.ofMicros? (t.toMicros + t.microsToNextHour) with
  | none => .error .beyondCalendar
  | some _ =>
    .ok (Binary64.ofQuotient false (max leastWait t.microsToNextHour) microsPerSecond)

end DiskCatalog.Calendar
