import DiskCatalog.Refresh.Slot

/-!
# Rebuilding the index

A trigger asks for a generation: the first one, a new one in any case, or a new one if the catalog
has changed.  Triggers of one keeper rebuild one after another, under a lock; one that looks for
changes looks before it asks for the lock and again when it has it.

`Trigger.step` is one step of a trigger, and a build takes a step for each look at the catalog, so
that steps of several triggers, of readers and of closing can come in any order, with the catalog
changing in between.  `Trigger.run` lets one trigger take all its steps.
-/

namespace DiskCatalog.Refresh

open Store Index

/-- What makes a generation out of what it sees. -/
abbrev Builder := Sightings → Outcome Generation

/-- The catalog that is searched, with its slot, the lock of its rebuilds and the time that the
clock shows. -/
structure Keeper where
  path : String
  builder : Builder
  slot : Slot := {}
  rebuilding : Bool := false
  clock : Calendar.DateTime := .epoch

namespace Keeper

/-- The same keeper at another time. -/
def setClock (k : Keeper) (now : Calendar.DateTime) : Keeper :=
  { k with clock := now }

/-- Whether the catalog differs from the one that was built from.  A catalog that cannot be looked
at counts as the same, which is reported. -/
def hasChanged (k : Keeper) (disk : Disk) : Bool × List Log.Record :=
  match readSignature k.path (disk k.path) with
  | .ok signature => (some signature != k.slot.signature, [])
  | .error failure =>
    (false, [Log.error ("Error checking catalog modification time: " ++ failure.message)])

/-- Whether there is a generation and the catalog is the one it was built from. -/
def isFresh (k : Keeper) (disk : Disk) : Bool × List Log.Record :=
  if k.slot.current.isNone then (false, [])
  else
    let (changed, logs) := k.hasChanged disk
    (!changed, logs)

end Keeper

inductive Request where
  | first
  | always
  | ifChanged
  deriving DecidableEq, Repr

/-- What a trigger achieved: whether a generation was published, and which one was built. -/
structure Rebuilt where
  published : Bool
  generation : Option Nat
  deriving DecidableEq, Repr

inductive Stage where
  /-- Looks for changes before it asks for the lock. -/
  | checking
  | waiting
  | rechecking
  /-- Builds, with what it has seen so far. -/
  | building (seen : List Target)
  | publishing (generation : Nat)
  | retiring (generation : Option Nat) (result : Rebuilt)
  | leaving (result : Except Failure Rebuilt)
  | finished (result : Except Failure Rebuilt)

structure Trigger where
  request : Request
  reason : String
  /-- Whether failures of the catalog are passed on and not only reported. -/
  raising : Bool
  stage : Stage

namespace Trigger

def first : Trigger :=
  ⟨.first, "", true, .waiting⟩

def reload (reason : String) (raising : Bool) : Trigger :=
  ⟨.always, reason, raising, .waiting⟩

/-- Asks for a new generation if the catalog has changed. -/
def check (reason : String) (raising : Bool) : Trigger :=
  ⟨.ifChanged, reason, raising, .checking⟩

def moveTo (t : Trigger) (stage : Stage) : Trigger :=
  { t with stage }

def result? (t : Trigger) : Option (Except Failure Rebuilt) :=
  match t.stage with
  | .finished result => some result
  | _ => none

def survives (t : Trigger) (failure : Failure) : Bool :=
  t.request != .first && !t.raising && failure.isCatalogFault

def fail (t : Trigger) (failure : Failure) : Trigger × List Log.Record :=
  if t.survives failure then
    (t.moveTo (.leaving (.ok ⟨false, none⟩)),
      [Log.failure ("Search index reload failed (" ++ t.reason ++
        "); keeping previous index: " ++ failure.message)])
  else (t.moveTo (.leaving (.error failure)), [])

/-- A build fails for a reason of its own, before its generation is handed over. -/
def abort (t : Trigger) (failure : Failure) : Trigger × List Log.Record :=
  match t.stage with
  | .building _ | .publishing _ => t.fail failure
  | _ => (t, [])

/-- What a build has seen when it has looked six times. -/
def sightings? : List Target → Option Sightings
  | [signature, opening, candidates, links, names, volumes] =>
    some ⟨signature, opening, candidates, links, names, volumes⟩
  | _ => none

def finishBuild (k : Keeper) (t : Trigger) (s : Sightings) :
    Keeper × Trigger × List Log.Record :=
  let outcome := k.builder s
  match outcome.result with
  | .ok g =>
    let (slot, index) := k.slot.add g
    ({ k with slot }, t.moveTo (.publishing index), outcome.logs)
  | .error failure =>
    let (t, logs) := t.fail failure
    (k, t, outcome.logs ++ logs)

/-- One step of a trigger; none for one that waits for the lock and for one that has finished. -/
def step (k : Keeper) (t : Trigger) (disk : Disk) :
    Option (Keeper × Trigger × List Log.Record) :=
  match t.stage with
  | .checking =>
    let (fresh, logs) := k.isFresh disk
    some (k, t.moveTo (if fresh then .finished (.ok ⟨false, none⟩) else .waiting), logs)
  | .waiting =>
    if k.rebuilding then none
    else some ({ k with rebuilding := true },
      t.moveTo (if t.request = .ifChanged then .rechecking else .building []), [])
  | .rechecking =>
    let (fresh, logs) := k.isFresh disk
    some (k, t.moveTo (if fresh then .leaving (.ok ⟨false, none⟩) else .building []), logs)
  | .building seen =>
    match sightings? seen with
    | none => some (k, t.moveTo (.building (seen ++ [disk k.path])), [])
    | some s => some (finishBuild k t s)
  | .publishing index =>
    let (slot, previous, published) := k.slot.publish index k.clock
    some ({ k with slot }, t.moveTo (.retiring previous ⟨published, some index⟩), [])
  | .retiring previous result =>
    some ({ k with slot := previous.elim k.slot k.slot.retire }, t.moveTo (.leaving (.ok result)), [])
  | .leaving result => some ({ k with rebuilding := false }, t.moveTo (.finished result), [])
  | .finished _ => none

/-- Takes a number of steps, as far as there are any. -/
def steps (disk : Disk) : Nat → Keeper → Trigger → Keeper × Trigger × List Log.Record
  | 0, k, t => (k, t, [])
  | n + 1, k, t =>
    match step k t disk with
    | none => (k, t, [])
    | some (k, t, logs) =>
      let (k, t, more) := steps disk n k t
      (k, t, logs ++ more)

/-- The steps that a trigger takes at most: three before it builds, six looks and the making of the
index, and three to the end. -/
def maxSteps : Nat := 13

def run (k : Keeper) (t : Trigger) (disk : Disk) :
    Keeper × Except Failure Rebuilt × List Log.Record :=
  let (k, t, logs) := t.steps disk maxSteps k
  (k, t.result?.getD (.error (.other .runtime "the index is being rebuilt")), logs)

end Trigger

end DiskCatalog.Refresh
