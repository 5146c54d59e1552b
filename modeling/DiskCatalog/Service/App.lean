import DiskCatalog.Refresh.Registry
import DiskCatalog.Service.Request

/-!
# The search service

A service answers requests from a coordinator of its own, or from the shared one of the process
while it has none.  `App.start` gives it one with the settings of the environment, which has to be
in order, and `App.stop` takes it back.
-/

namespace DiskCatalog.Service

open Refresh

structure App where
  registry : Registry
  own : Option Nat := none

structure Moment where
  around : Surroundings
  time : String
  number : Nat := 0

namespace App

def coordinator? (app : App) (index : Nat) : Option Coordinator :=
  app.registry.coordinators[index]?

def ownCoordinator? (app : App) : Option Coordinator :=
  app.own.bind app.coordinator?

/-- The coordinator that answers: the one of the service, or else the shared one. -/
def answering (app : App) (m : Moment) : App × Except Failure (Nat × Coordinator) × List Log.Record :=
  match app.own with
  | some index => (app, pair app (some index), [])
  | none =>
    let (registry, result, logs) := Call.get.run app.registry m.around
    let app := { app with registry }
    (app, result.bind (pair app), logs)
where
  pair (app : App) (index : Option Nat) : Except Failure (Nat × Coordinator) :=
    match index.bind fun i => (app.coordinator? i).map (i, ·) with
    | some found => .ok found
    | none => .error .indexNotBuilt

/-- Answers from the coordinator, which may change in the course of it. -/
def consult (app : App) (m : Moment)
    (ask : Coordinator → Coordinator × Except Failure α × List Log.Record) :
    App × Except Failure α × List Log.Record :=
  let (app, chosen, logs) := app.answering m
  match chosen with
  | .error failure => (app, .error failure, logs)
  | .ok (index, c) =>
    let (c, result, more) := ask (c.setClock m.around.utc)
    ({ app with registry := app.registry.modify index fun _ => c }, result, logs ++ more)

/-! ### Bodies -/

/-- A text of a body; bytes have to be UTF-8. -/
def decoded? : Value → Option Value
  | .bytes content => (Text.ofUtf8? content).map .text
  | v => some v

def decodedResult? (r : Search.Result) : Option Search.Result := do
  let name ← decoded? r.name
  let path ← decoded? r.path
  let volumeLabel ← decoded? r.volumeLabel
  let volumeRoot ← decoded? r.volumeRoot
  some { r with name, path, volumeLabel, volumeRoot }

def resultBody? (r : Search.Result) : Option Value :=
  (decodedResult? r).map Search.Result.toValue

def responseBody? (found : Search.Response) : Option Value := do
  let results ← found.results.mapM decodedResult?
  some (.object ({ found with results }.toFields 0))

/-! ### Endpoints -/

/-- The body that tells of the health of the service. -/
def healthBody (time : String) (connected : Bool) (path : String) : Value :=
  .object [("status", .text "ok"), ("timestamp", .text time),
    ("database", .object [("connected", .bool connected), ("path", .text path)])]

/-- Tells whether the service has a generation of its own, and where its catalog is. -/
def health (app : App) (m : Moment) : App × Reply × List Log.Record :=
  match app.ownCoordinator? with
  | some c => (app, .found (healthBody m.time c.slot.current.isSome c.path), [])
  | none =>
    match app.registry.readSettings with
    | .ok (registry, settings, logs) =>
      ({ app with registry }, .found (healthBody m.time false settings.databasePath), logs)
    | .error failure =>
      let (reply, logs) := Reply.ofFailure failure
      (app, reply, logs)

def search (app : App) (m : Moment) (r : Request) : App × Reply × List Log.Record :=
  match r.wish with
  | .error message => (app, .error badRequest message, [])
  | .ok wish =>
    let (app, result, logs) :=
      app.consult m fun c => c.search wish.query wish.limit wish.offset m.around.disk
    let (reply, more) := Reply.ofResult responseBody? result
    (app, reply, logs ++ more)

def random (app : App) (m : Moment) : App × Reply × List Log.Record :=
  let (app, result, logs) := app.consult m fun c => c.random m.number m.around.disk
  match result with
  | .error .noItems => (app, .error notFound Failure.noItems.message, logs)
  | result =>
    let (reply, more) := Reply.ofResult resultBody? result
    (app, reply, logs ++ more)

/-- Failures of the catalog file and of the catalog search. -/
def isStatusFault (failure : Failure) : Bool :=
  failure.kind.isFileFault || failure.isCatalogFault

def status (app : App) (m : Moment) : App × Reply × List Log.Record :=
  let (app, result, logs) :=
    app.consult m fun c => (c, c.status m.around.disk, [])
  let (reply, more) := match result with
    | .error failure =>
      if isStatusFault failure then
        (.error serviceError (Reply.worded failure.message "Failed to retrieve database status"),
          [Log.error ("Database status error: " ++ failure.message)])
      else Reply.ofFailure failure
    | .ok status => (Reply.found (.object status.toFields), [])
  (app, reply, logs ++ more)

def answer (app : App) (m : Moment) (r : Request) : Endpoint → App × Reply × List Log.Record
  | .health => app.health m
  | .search => app.search m r
  | .random => app.random m
  | .status => app.status m

def unknownRoute (r : Request) : Reply :=
  .error notFound ("Route " ++ r.method ++ " " ++ r.path ++ " not found")

def handle (app : App) (m : Moment) (r : Request) : App × Reply × List Log.Record :=
  match Route.ofPath r.path with
  | .unknown => (app, unknownRoute r, [])
  | .moved location => (app, .moved location, [])
  | route =>
    if !route.methods.contains r.method then
      (app, .error methodNotAllowed "Method Not Allowed", [])
    else match route with
      | .endpoint e => app.answer m r e
      | _ => (app, .page, [])

/-! ### Starting and stopping -/

/-- Gives a service its coordinator, unless it has one, and starts watching and refreshing. -/
def start (app : App) (around : Surroundings) : Except Failure App × List Log.Record :=
  if app.own.isSome then (.ok app, [])
  else match app.registry.readSettings with
    | .error failure => (.error failure, [])
    | .ok (registry, settings, logs) =>
      match settings.problems with
      | [] =>
        let (registry, result, more) := (Call.init (some settings) true).run registry around
        (result.map fun own => { registry, own }, logs ++ more)
      | problems => (.error (.configuration problems), logs)

/-- Takes the coordinator back that `start` gave, and closes it. -/
def stop (app : App) (around : Surroundings) : App × Except Failure Unit × List Log.Record :=
  let (registry, result, logs) := Call.close.run app.registry around
  ({ registry }, result.map fun _ => (), logs)

end App

end DiskCatalog.Service
