import DiskCatalog.Binary64.Basic
import DiskCatalog.Failure
import DiskCatalog.Log.Record

/-!
# Queues of changes

A queue collects paths and hands them over in one batch when nothing has been added for a while:
every path that is added starts the timer anew.  A batch is handed over by a flush.  While one
flush is at it, another puts its paths aside, and the first one takes them up before it ends.

A timer that expires is no longer armed and starts a flush, at once or later; `Flush.step` is one
step of a flush that nothing can come between.
-/

namespace DiskCatalog.Refresh

/-- Puts a text into an ascending list unless it is there. -/
def insertPath (path : String) : List String → List String
  | [] => [path]
  | p :: paths =>
    if path = p then p :: paths
    else if path < p then path :: p :: paths
    else p :: insertPath path paths

structure ChangeQueue where
  delay : Binary64
  /-- The paths that were added, ascending. -/
  paths : List String := []
  /-- The paths that a flush has put aside, ascending. -/
  pending : List String := []
  timer : Option Nat := none
  /-- The timers that run, in the order in which they were started. -/
  armed : List Nat := []
  started : Nat := 0
  busy : Bool := false
  deriving DecidableEq, Repr

namespace ChangeQueue

/-- The delay of a queue; anything that is not above zero is zero. -/
def delayOf (seconds : Binary64) : Binary64 :=
  if seconds.isAboveZero then seconds else .ofInt 0

def ofDelay (seconds : Binary64) : ChangeQueue :=
  { delay := delayOf seconds }

def isScheduled (q : ChangeQueue) : Bool :=
  q.timer.isSome

def disarm (q : ChangeQueue) : ChangeQueue :=
  match q.timer with
  | none => q
  | some t => { q with armed := q.armed.erase t }

def arm (q : ChangeQueue) : ChangeQueue :=
  { q with timer := some q.started, armed := q.armed ++ [q.started], started := q.started + 1 }

def add (q : ChangeQueue) (path : String) : ChangeQueue :=
  { q with paths := insertPath path q.paths }.disarm.arm

def cancel (q : ChangeQueue) : ChangeQueue :=
  { q.disarm with timer := none, paths := [], pending := [] }

def expire (q : ChangeQueue) (timer : Nat) : ChangeQueue :=
  { q with armed := q.armed.erase timer }

end ChangeQueue

inductive Flush where
  | starting
  /-- Has taken its paths and tries to be the one that hands over. -/
  | trying (batch : List String)
  | yielding (batch : List String)
  /-- The batch has been handed over and is being worked on. -/
  | calling (batch : List String)
  | draining
  | leaving
  | finished
  deriving DecidableEq, Repr

namespace Flush

/-- One step of a flush; none while a batch is worked on, and at the end. -/
def step (q : ChangeQueue) : Flush → Option (ChangeQueue × Flush)
  | .starting =>
    some ({ q with paths := [], timer := none },
      if q.paths.isEmpty && q.pending.isEmpty then .finished else .trying q.paths)
  | .trying batch =>
    some (if q.busy then (q, .yielding batch) else ({ q with busy := true }, .calling batch))
  | .yielding batch =>
    let q := { q with pending := batch.foldr insertPath q.pending }
    some (if q.timer.isNone then q.arm else q, .finished)
  | .calling _ => none
  | .draining =>
    some (if q.pending.isEmpty then (q, .leaving)
      else ({ q with pending := [] }, .calling q.pending))
  | .leaving => some ({ q with busy := false }, .finished)
  | .finished => none

def returned : Flush → Flush
  | .calling _ => .draining
  | f => f

/-- What is logged when the work on a batch fails. -/
def report (failure : Failure) : Log.Record :=
  Log.failure ("Processing change batch failed: " ++ failure.message)

end Flush

end DiskCatalog.Refresh
