import DiskCatalog.Refresh.ChangeQueue
import DiskCatalog.Refresh.HourlySchedule
import DiskCatalog.Refresh.Rebuild
import DiskCatalog.Refresh.Watch
import DiskCatalog.Search.Page
import DiskCatalog.Search.Status
import DiskCatalog.Settings.Basic

/-!
# Coordinators

A coordinator keeps the index of one catalog fresh.  Rebuilds are triggered by searches, by changes
that an observer reports, gathered in a queue, and by an hourly schedule, which rebuilds in any case
once a night.
-/

namespace DiskCatalog.Refresh

open Store Index Search

structure Plan where
  path : String
  options : Index.Options
  debounce : Binary64
  polling : Bool
  nightlyHour : Int
  deriving DecidableEq, Repr

def Plan.ofSettings (s : Settings) : Plan where
  path := s.databasePath
  options := ⟨s.excludes.map some, s.minFileSize, s.maxDepth⟩
  debounce := s.debounce
  polling := s.polling
  nightlyHour := s.nightlyHour

structure Coordinator where
  plan : Plan
  keeper : Keeper
  queue : Option ChangeQueue := none
  /-- Every observer that was made, in order. -/
  observers : Array Observer := #[]
  observer : Option Nat := none
  /-- Every schedule that was made, in order. -/
  schedules : Array HourlySchedule := #[]
  schedule : Option Nat := none

namespace Coordinator

def ofPlan (plan : Plan) : Coordinator where
  plan := plan
  keeper := { path := plan.path, builder := buildSeen plan.path plan.options }

def path (c : Coordinator) : String :=
  c.plan.path

def slot (c : Coordinator) : Slot :=
  c.keeper.slot

def setSlot (c : Coordinator) (slot : Slot) : Coordinator :=
  { c with keeper := { c.keeper with slot } }

/-- The same coordinator at another time. -/
def setClock (c : Coordinator) (now : Calendar.DateTime) : Coordinator :=
  { c with keeper := c.keeper.setClock now }

def isWatching (c : Coordinator) : Bool :=
  c.observer.isSome

def currentSchedule? (c : Coordinator) : Option HourlySchedule :=
  c.schedule.bind (c.schedules[·]?)

def isScheduled (c : Coordinator) : Bool :=
  c.currentSchedule?.any (·.active)

/-! ### Watching -/

/-- The queue of changes, made when it is needed first. -/
def changes (c : Coordinator) : ChangeQueue :=
  c.queue.getD (.ofDelay c.plan.debounce)

def withChange (c : Coordinator) (path : String) : Coordinator :=
  { c with queue := some (c.changes.add path) }

def notifyChange (c : Coordinator) : Coordinator :=
  c.withChange c.path

def watchedPath (c : Coordinator) (here : String) : String :=
  Path.absolute here c.path

/-- Starts an observer unless there is one.  The system may refuse to start it. -/
def startWatching (c : Coordinator) (here : String) (refusal : Option Failure) :
    Coordinator × Except Failure Unit :=
  if c.isWatching then (c, .ok ())
  else
    let observer : Observer :=
      { polling := c.plan.polling, directory := Path.directory (c.watchedPath here)
        started := refusal.isNone }
    let c := { c with queue := some c.changes, observers := c.observers.push observer }
    match refusal with
    | some failure => (c, .error failure)
    | none => ({ c with observer := some (c.observers.size - 1) }, .ok ())

/-- Stops the observer and drops the changes that were not taken up. -/
def stopWatching (c : Coordinator) : Coordinator :=
  let observers := match c.observer with
    | none => c.observers
    | some i => c.observers.modify i fun o => { o with stopped := true }
  { c with observers, observer := none, queue := c.queue.map ChangeQueue.cancel }

def notice (c : Coordinator) (here : String) (e : Event) : Coordinator :=
  if e.concerns here (c.watchedPath here) then c.withChange (c.watchedPath here) else c

/-- What a batch of changes triggers; nothing when the coordinator is closed. -/
def changeTrigger? (c : Coordinator) : Option Trigger :=
  if c.slot.closed then none else some (.check "watch" false)

def stepFlush (c : Coordinator) (f : Flush) : Option (Coordinator × Flush) :=
  (f.step c.changes).map fun (queue, f) => ({ c with queue := some queue }, f)

def expireChange (c : Coordinator) (timer : Nat) : Coordinator :=
  { c with queue := c.queue.map (·.expire timer) }

/-! ### Hourly refreshing -/

/-- What the schedule triggers at a time: at the nightly hour a rebuild in any case. -/
def scheduledTrigger (c : Coordinator) (now : Calendar.DateTime) : Trigger :=
  if (now.hour : Int) = c.plan.nightlyHour then .reload "nightly" false
  else .check "schedule" false

def stopSchedule (c : Coordinator) : Coordinator :=
  match c.schedule with
  | none => c
  | some i => { c with schedules := c.schedules.modify i HourlySchedule.stop }

/-- Starts a new schedule in the place of the old one. -/
def scheduleHourly (c : Coordinator) (now : Calendar.DateTime) :
    Coordinator × Except Failure Unit :=
  let c := c.stopSchedule
  let (schedule, result) := ({} : HourlySchedule).start now
  ({ c with schedules := c.schedules.push schedule, schedule := some c.schedules.size }, result)

def unschedule (c : Coordinator) : Coordinator :=
  { c.stopSchedule with schedule := none }

/-- One step of what an expired timer of a schedule does. -/
def stepFiring (c : Coordinator) (index : Nat) (now : Calendar.DateTime) (f : Firing) :
    Option (Coordinator × Firing) :=
  (c.schedules[index]?).bind fun schedule =>
    (f.step schedule now).map fun (schedule, f) =>
      ({ c with schedules := c.schedules.modify index fun _ => schedule }, f)

def expireHour (c : Coordinator) (index timer : Nat) : Coordinator :=
  { c with schedules := c.schedules.modify index (·.expire timer) }

/-! ### Closing -/

/-- Closes for good: nothing is published any more, and the current generation is retired. -/
def close (c : Coordinator) : Coordinator :=
  let c := ((c.setSlot c.slot.shut).stopWatching).unschedule
  let (slot, previous) := c.slot.clear
  c.setSlot (previous.elim slot slot.retire)

/-! ### Reading -/

/-- Reads the current generation: enters it, reads and leaves. -/
def reading (c : Coordinator) (read : Held → Except Failure α) : Except Failure α := do
  let (slot, index) ← c.slot.enter
  match slot.built[index]? with
  | none => .error .indexNotBuilt
  | some held => read held

def answer (c : Coordinator) (query : String) (limit offset : Option Int) :
    Except Failure Response :=
  c.reading fun held => do respond query limit offset (← held.entries)

def pickItem (c : Coordinator) (number : Nat) : Except Failure Result :=
  c.reading fun held => do pick number (← held.entries)

/-- The status of the catalog file and of the current generation. -/
def status (c : Coordinator) (disk : Disk) : Except Failure Status := do
  let (fileSize, lastModified) ← fileFacts c.path (disk c.path)
  c.reading fun held =>
    .ok {
      path := c.path, fileSize, lastModified
      lastLoaded := c.slot.loaded.map (·.toMillis)
      statistics := held.generation.statistics }

/-! ### Refreshing at once -/

def rebuild (c : Coordinator) (t : Trigger) (disk : Disk) :
    Coordinator × Except Failure Rebuilt × List Log.Record :=
  let (keeper, result, logs) := t.run c.keeper disk
  ({ c with keeper }, result, logs)

/-- Reads the current generation after a look for changes. -/
def refreshed (c : Coordinator) (disk : Disk) (read : Coordinator → Except Failure α) :
    Coordinator × Except Failure α × List Log.Record :=
  let (c, result, logs) := c.rebuild (.check "query" false) disk
  (c, result.bind fun _ => read c, logs)

def search (c : Coordinator) (query : String) (limit offset : Option Int) (disk : Disk) :
    Coordinator × Except Failure Response × List Log.Record :=
  c.refreshed disk fun c => c.answer query limit offset

def random (c : Coordinator) (number : Nat) (disk : Disk) :
    Coordinator × Except Failure Result × List Log.Record :=
  c.refreshed disk fun c => c.pickItem number

end Coordinator

end DiskCatalog.Refresh
