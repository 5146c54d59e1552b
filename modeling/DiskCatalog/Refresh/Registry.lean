import DiskCatalog.Refresh.Coordinator

/-!
# The coordinator of a process

A process has one coordinator that everything shares.  It is put into its place by an `init` call,
which replaces another one and closes that, or by the first `get` call; a `close` call takes it out
and closes it.  The settings are read from the environment once.

Calls run side by side.  `Call.step` is one step of a call that nothing can come between, and the
first build of a coordinator happens between two of them.
-/

namespace DiskCatalog.Refresh

structure Registry where
  environment : Settings.Environment
  /-- The settings, once they were read. -/
  settings : Option Settings := none
  /-- Every coordinator that was made, in order. -/
  coordinators : Array Coordinator := #[]
  registered : Option Nat := none
  /-- Whether a call holds the place of the shared coordinator. -/
  held : Bool := false

structure Surroundings where
  disk : Store.Disk
  here : String
  /-- The time of the place. -/
  now : Calendar.DateTime
  /-- The same time in UTC. -/
  utc : Calendar.DateTime
  /-- Why an observer cannot be started, if it cannot. -/
  refusal : Option Failure := none

namespace Registry

def ofEnvironment (environment : Settings.Environment) : Registry :=
  { environment }

/-- The settings of the environment, which is read the first time only. -/
def readSettings (r : Registry) : Except Failure (Registry × Settings × List Log.Record) :=
  match r.settings with
  | some s => .ok (r, s, [])
  | none => do
    let loaded ← Settings.load r.environment
    .ok ({ r with settings := some loaded.value }, loaded.value, loaded.logs)

def add (r : Registry) (plan : Plan) : Registry × Nat :=
  ({ r with coordinators := r.coordinators.push (.ofPlan plan) }, r.coordinators.size)

def modify (r : Registry) (index : Nat) (f : Coordinator → Coordinator) : Registry :=
  { r with coordinators := r.coordinators.modify index f }

end Registry

inductive Call where
  /-- Makes a new coordinator with settings, those of the environment without any. -/
  | init (settings : Option Settings) (background : Bool)
  | get
  | close

inductive CallStage where
  | preparing
  | waiting
  /-- The first build of a coordinator runs; a coordinator with settings is watched and
  refreshed afterwards. -/
  | building (coordinator : Nat) (background : Option Settings)
  | starting (coordinator : Nat) (background : Option Settings)
  | registering (coordinator : Nat)
  | closing (coordinator : Nat) (result : Option Nat)
  | finished (result : Except Failure (Option Nat))

namespace Call

def start : Call → CallStage
  | .init .. => .preparing
  | .get | .close => .waiting

/-- Starts watching and refreshing.  A coordinator that cannot watch relies on its schedule. -/
def startBackground (c : Coordinator) (s : Settings) (around : Surroundings) :
    Coordinator × Except Failure Unit × List Log.Record :=
  let (c, result) := if s.watch then c.startWatching around.here around.refusal else (c, .ok ())
  match result with
  | .error failure =>
    if failure.kind.isFileFault then
      let (c, result) := c.scheduleHourly around.now
      (c, result, [Log.warning
        ("File watcher unavailable, relying on scheduled checks: " ++ failure.message)])
    else (c, .error failure, [])
  | .ok () =>
    let (c, result) := c.scheduleHourly around.now
    (c, result, [])

def prepare (r : Registry) (settings : Option Settings) (background : Bool) :
    Registry × CallStage × List Log.Record :=
  match (settings.elim r.readSettings fun s => .ok (r, s, [])) with
  | .error failure => (r, .finished (.error failure), [])
  | .ok (r, s, logs) =>
    let (r, index) := r.add (.ofSettings s)
    (r, .building index (if background then some s else none), logs)

/-- One step of a call; none while it waits or its build runs, and at the end. -/
def step (r : Registry) (around : Surroundings) (call : Call) (stage : CallStage) :
    Option (Registry × CallStage × List Log.Record) :=
  match call, stage with
  | .init settings background, .preparing => some (prepare r settings background)
  | .get, .waiting =>
    if r.held then none
    else match r.registered with
      | some index => some (r, .finished (.ok (some index)), [])
      | none =>
        let (prepared, stage, logs) := prepare r none false
        match stage with
        | .finished _ => some (prepared, stage, logs)
        | _ => some ({ prepared with held := true }, stage, logs)
  | .close, .waiting =>
    if r.held then none
    else some ({ r with registered := none },
      r.registered.elim (.finished (.ok none)) fun index => .closing index none, [])
  | _, .starting index none => some (r, .registering index, [])
  | _, .starting index (some s) =>
    match r.coordinators[index]? with
    | none => some (r, .registering index, [])
    | some c =>
      let (c, result, logs) := startBackground c s around
      some (r.modify index fun _ => c,
        match result with
        | .ok () => .registering index
        | .error failure => .finished (.error failure), logs)
  | .get, .registering index =>
    some ({ r with registered := some index, held := false }, .finished (.ok (some index)), [])
  | _, .registering index =>
    if r.held then none
    else some ({ r with registered := some index },
      r.registered.elim (.finished (.ok (some index))) fun previous =>
        .closing previous (some index), [])
  | _, .closing index result =>
    some (r.modify index Coordinator.close, .finished (.ok result), [])
  | _, _ => none

def built (r : Registry) (call : Call) (stage : CallStage) (result : Except Failure Rebuilt) :
    Registry × CallStage :=
  match stage with
  | .building index background =>
    match result, call with
    | .ok _, _ => (r, .starting index background)
    | .error failure, .get => ({ r with held := false }, .finished (.error failure))
    | .error failure, _ => (r, .finished (.error failure))
  | _ => (r, stage)

/-- Takes the steps of a call, with its build, as far as there are any. -/
def steps (around : Surroundings) (call : Call) :
    Nat → Registry → CallStage → Registry × CallStage × List Log.Record
  | 0, r, stage => (r, stage, [])
  | n + 1, r, stage =>
    match stage with
    | .building index background =>
      match r.coordinators[index]? with
      | none => (r, stage, [])
      | some c =>
        let (c, result, logs) := (c.setClock around.utc).rebuild .first around.disk
        let (r, stage) := built (r.modify index fun _ => c) call (.building index background) result
        let (r, stage, more) := steps around call n r stage
        (r, stage, logs ++ more)
    | stage =>
      match step r around call stage with
      | none => (r, stage, [])
      | some (r, stage, logs) =>
        let (r, stage, more) := steps around call n r stage
        (r, stage, logs ++ more)

def maxSteps : Nat := 5

def run (r : Registry) (around : Surroundings) (call : Call) :
    Registry × Except Failure (Option Nat) × List Log.Record :=
  let (r, stage, logs) := steps around call maxSteps r call.start
  (r, match stage with
    | .finished result => result
    | _ => .error (.other .runtime "the shared coordinator is being made"), logs)

end Call

end DiskCatalog.Refresh
