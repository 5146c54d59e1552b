import DiskCatalog.Calendar.Hour
import DiskCatalog.Log.Record

/-!
# Hourly schedules

While a schedule is active it has a timer for the next full hour.  When the timer expires the work
is done and the next timer is started; a failure of the work is reported and changes nothing.

`Firing.step` is one step of what an expired timer does, which nothing can come between.
-/

namespace DiskCatalog.Refresh

open Calendar

structure HourlySchedule where
  active : Bool := false
  timer : Option Nat := none
  /-- The timers that run with the seconds they wait, in the order in which they were started. -/
  armed : List (Nat × Binary64) := []
  started : Nat := 0
  deriving DecidableEq, Repr

namespace HourlySchedule

def disarm (s : HourlySchedule) : HourlySchedule :=
  match s.timer with
  | none => s
  | some t => { s with armed := s.armed.filter (·.1 != t) }

/-- Stops the timer and starts one for the next full hour.  At the end of the calendar there is
none. -/
def arm (s : HourlySchedule) (now : DateTime) : HourlySchedule × Except Failure Unit :=
  let s := s.disarm
  match now.secondsToNextHour with
  | .error failure => (s, .error failure)
  | .ok delay =>
    ({ s with
        timer := some s.started
        armed := s.armed ++ [(s.started, delay)]
        started := s.started + 1 }, .ok ())

def start (s : HourlySchedule) (now : DateTime) : HourlySchedule × Except Failure Unit :=
  { s with active := true }.arm now

def stop (s : HourlySchedule) : HourlySchedule :=
  { s.disarm with active := false, timer := none }

def expire (s : HourlySchedule) (timer : Nat) : HourlySchedule :=
  { s with armed := s.armed.filter (·.1 != timer) }

def report (failure : Failure) : Log.Record :=
  Log.failure ("Error during scheduled refresh: " ++ failure.message)

end HourlySchedule

/-- How far the work of an expired timer is. -/
inductive Firing where
  | starting
  | calling
  | rearming
  | finished (result : Except Failure Unit)

namespace Firing

/-- One step; none while the work is done, and at the end. -/
def step (s : HourlySchedule) (now : DateTime) : Firing → Option (HourlySchedule × Firing)
  | .starting =>
    some (if s.active then ({ s with timer := none }, .calling) else (s, .finished (.ok ())))
  | .calling => none
  | .rearming =>
    if s.active then
      let (s, result) := s.arm now
      some (s, .finished result)
    else some (s, .finished (.ok ()))
  | .finished _ => none

def returned : Firing → Firing
  | .calling => .rearming
  | f => f

end Firing

end DiskCatalog.Refresh
