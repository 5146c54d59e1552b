import DiskCatalog.Refresh.Registry

/-!
# Alarms

An armed timer that waits for a finite time has an alarm, which tells the millisecond at which it
rings.  `Running.tick` takes up what an observer has seen, lets the alarms ring that are due, and
sets those of the timers that were started meanwhile.
-/

namespace DiskCatalog.Refresh

inductive AlarmOwner where
  | changes
  | schedule (index : Nat)
  deriving DecidableEq, Repr

structure Alarm where
  owner : AlarmOwner
  timer : Nat
  due : Nat
  deriving DecidableEq, Repr

/-- The milliseconds of a finite number of seconds, rounded up. -/
def millis? (seconds : Binary64) : Option Nat :=
  seconds.toRat?.map fun q => (q * 1000).ceil.toNat

namespace Coordinator

/-- The timers that run, with the seconds that they wait. -/
def armed (c : Coordinator) : List (AlarmOwner × Nat × Binary64) :=
  c.queue.elim [] (fun q => q.armed.map (AlarmOwner.changes, ·, q.delay)) ++
    c.schedules.toList.zipIdx.flatMap fun (s, index) =>
      s.armed.map fun (timer, wait) => (.schedule index, timer, wait)

/-- The alarms of the timers that run; those that are set already stay as they are. -/
def alarms (c : Coordinator) (known : List Alarm) (now : Nat) : List Alarm :=
  c.armed.filterMap fun (owner, timer, wait) =>
    (known.find? fun a => a.owner = owner ∧ a.timer = timer).or
      ((millis? wait).map fun wait => ⟨owner, timer, now + wait⟩)

/-- Does the work of a trigger, and reports its failure. -/
def work (c : Coordinator) (t : Trigger) (disk : Store.Disk) (report : Failure → Log.Record) :
    Coordinator × List Log.Record :=
  let (c, result, logs) := c.rebuild t disk
  match result with
  | .ok _ => (c, logs)
  | .error failure => (c, logs ++ [report failure])

/-- Takes the steps of a flush, with its work, as far as there are any. -/
def flush (disk : Store.Disk) : (steps : Nat) → Coordinator → Flush → Coordinator × List Log.Record
  | 0, c, _ => (c, [])
  | steps + 1, c, .calling batch =>
    let (c, logs) := c.changeTrigger?.elim (c, []) (c.work · disk Flush.report)
    let (c, more) := flush disk steps c (Flush.calling batch).returned
    (c, logs ++ more)
  | steps + 1, c, f =>
    match c.stepFlush f with
    | none => (c, [])
    | some (c, f) => flush disk steps c f

/-- Takes the steps of what an expired timer of a schedule does. -/
def fire (around : Surroundings) (index : Nat) :
    (steps : Nat) → Coordinator → Firing → Coordinator × List Log.Record
  | 0, c, _ => (c, [])
  | steps + 1, c, .calling =>
    let (c, logs) := c.work (c.scheduledTrigger around.now) around.disk HourlySchedule.report
    let (c, more) := fire around index steps c Firing.calling.returned
    (c, logs ++ more)
  | steps + 1, c, f =>
    match c.stepFiring index around.now f with
    | none => (c, [])
    | some (c, f) => fire around index steps c f

/-- More steps than there are where nothing comes between them. -/
def stepsAtOnce : Nat := 8

def ring (c : Coordinator) (around : Surroundings) (a : Alarm) : Coordinator × List Log.Record :=
  match a.owner with
  | .changes => flush around.disk stepsAtOnce (c.expireChange a.timer) .starting
  | .schedule index => fire around index stepsAtOnce (c.expireHour index a.timer) .starting

end Coordinator

structure Running where
  coordinator : Coordinator
  alarms : List Alarm := []

namespace Running

/-- Takes up events, and rings the alarms that are due. -/
def tick (r : Running) (around : Surroundings) (now : Nat) (events : List Event) :
    Running × List Log.Record :=
  let c := events.foldl (·.notice around.here ·) (r.coordinator.setClock around.utc)
  let alarms := c.alarms r.alarms now
  let (c, logs) := (alarms.filter (·.due ≤ now)).foldl (fun (c, logs) a =>
    let (c, more) := c.ring around a
    (c, logs ++ more)) (c, [])
  (⟨c, c.alarms alarms now⟩, logs)

end Running

end DiskCatalog.Refresh
