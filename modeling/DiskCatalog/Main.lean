import Std.Http.Server
import Std.Time.Zoned
import DiskCatalog.CommandLine.Run
import DiskCatalog.Log.Layout
import DiskCatalog.Refresh.Alarm
import DiskCatalog.Settings.File
import DiskCatalog.Store.Database

/-!
# The program

Carries out the command line of the process.  A service and a watch run until the process is ended,
and look at the clock and at the catalog file once a second.
-/

namespace DiskCatalog.Program

open CommandLine Refresh Service

/-! ### Around the process -/

def instant (nanos : Int) : Calendar.DateTime :=
  (Calendar.DateTime.ofMicros? (Calendar.epochMicros + nanos.fdiv 1000)).getD .epoch

/-- The time in UTC and the time of the place. -/
structure Clock where
  utc : Calendar.DateTime
  place : Calendar.DateTime

def readClock : IO Clock := do
  let utc ← Std.Time.Timestamp.now
  let place ← Std.Time.PlainDateTime.now
  return ⟨instant utc.toNanosecondsSinceUnixEpoch.val, instant place.toWallTime.toNanoseconds.val⟩

/-- The variables that matter, with those of the settings file that have no text yet. -/
def readEnvironment : IO Settings.Environment := do
  let file ← try IO.FS.readFile ".env" catch _ => pure ""
  let names := "HOME" :: Settings.variableNames ++ (Settings.File.read file).map (·.name)
  let texts ← names.filterMapM fun name => return (← IO.getEnv name).map (name, ·)
  match Settings.File.fill ⟨texts⟩ file with
  | .ok environment => return environment
  | .error _ => return ⟨texts⟩

/-- What a path leads to.  A file that looks as it did is not read again. -/
def look (known : Option Store.File) (path : String) : IO Store.Target := do
  let place := (← IO.currentDir) / path
  try
    let facts ← place.metadata
    if facts.type matches .dir then return .directory
    let modified := facts.modified.sec * 1000000000 + facts.modified.nsec.toNat
    let size := facts.byteSize.toNat
    match known.filter fun f => f.modified = modified ∧ f.size = size with
    | some file => return .file file
    | none => return .file ⟨modified, size, .ofBytes (← IO.FS.readBinFile place)⟩
  catch
    | .inappropriateType .. => return .fault .notADirectory
    | _ => return .fault .missing

/-- What a command finds where a path leads to a target. -/
def situation (environment : Settings.Environment) (path : String) (target : Store.Target) :
    IO Situation := do
  let clock ← readClock
  let here := (← IO.currentDir).toString
  let number ← IO.rand 0 (twoTo 60)
  let disk : Store.Disk := fun p => if p = path then target else .fault .missing
  return {
    environment
    moment := {
      around := { disk, here, now := clock.place, utc := clock.utc }
      time := clock.utc.toMillis, number } }

def Clock.stamp (clock : Clock) : Log.Layout → String
  | .text => String.ofList (clock.place.dayChars ++ ' ' :: clock.place.clockChars ++
      ',' :: Text.padded 3 (clock.place.micro / 1000))
  | .json => clock.utc.toText ++ "+00:00"

def writeLogs (sink : Log.Sink) (records : List Log.Record) : IO Unit := do
  let moment := (← readClock).stamp sink.layout
  IO.eprint (sink.write (records.map fun r =>
    { moment, level := r.severity.number, logger := programName, message := r.message }))

def finish (sink : Log.Sink) (report : Report) : IO UInt32 := do
  writeLogs sink report.logs
  for note in report.notes do IO.eprintln note
  if report.traced then IO.eprintln "Traceback"
  IO.print report.output
  return report.exit.toUInt32

/-! ### Running on -/

/-- A command that runs on, with the file as it was seen last. -/
structure Live where
  app : App
  sink : Log.Sink
  path : String
  file : Option Store.File
  alarms : List Alarm := []

/-- The mark of the file as it was seen last. -/
def Live.signature? (live : Live) : Option Store.Signature :=
  live.file.map fun f => ⟨f.modified, f.size⟩

def Live.look (live : Live) : IO (Live × Situation) := do
  let target ← Program.look live.file live.path
  let file := match target with
    | .file file => some file
    | _ => none
  return ({ live with file }, ← situation live.app.registry.environment live.path target)

/-- Takes up a change of the file, and does the work that is due. -/
def Live.tick (live : Live) : IO Live := do
  let (next, here) ← live.look
  match live.app.own, live.app.ownCoordinator? with
  | some index, some c =>
    let isNew := next.file.isSome && next.signature? != live.signature?
    let events : List Event :=
      if c.isWatching && isNew then [{ kind := .modified, path := live.path }] else []
    let (running, logs) := Running.tick ⟨c, live.alarms⟩ here.around (← IO.monoMsNow) events
    writeLogs live.sink logs
    let registry := live.app.registry.modify index fun _ => running.coordinator
    return { next with alarms := running.alarms, app := { live.app with registry } }
  | _, _ => return next

def answer (live : Std.Mutex Live) (r : Service.Request) : IO Reply :=
  live.atomically do
    let before ← get
    let (next, here) ← before.look
    let (app, reply, logs) := before.app.handle here.moment r
    writeLogs before.sink logs
    set { next with file := before.file, app }
    return reply

/-- Looks at the clock and at the file for ever. -/
partial def runOn (live : Std.Mutex Live) : IO UInt32 := do
  IO.sleep 1000
  live.atomically do set (← (← get).tick)
  runOn live

/-- Shows how a command ended that was to run on. -/
def giveUp (sink : Log.Sink) (failure : Failure) (i : Invocation) (report : Report) : IO UInt32 :=
  finish sink
    { report with exit := exitFailed, output := failureLine failure, traced := i.debug }

def watchOn (here : Situation) (i : Invocation) (file : Option Store.File) : IO UInt32 := do
  let start : Work (Settings × Coordinator) := do
    let settings ← settingsFor here.environment i.database
    return (settings, ← startWatch here settings)
  let sink := Log.Sink.configured here.environment
  match start.run.run {} with
  | (.error failure, report) => giveUp (sink none none) failure i report
  | (.ok (s, c), report) =>
    let sink := sink (some s.logLevel) (some s.logFormat)
    discard (finish sink report)
    let registry := { Registry.ofEnvironment here.environment with coordinators := #[c] }
    runOn (← Std.Mutex.new {
      app := ⟨registry, some 0⟩, sink, path := s.databasePath, file })

/-! ### Serving -/

def requestOf (head : Std.Http.Request.Head) : Service.Request where
  method := toString head.method
  path := "/" ++ "/".intercalate head.uri.path.toDecodedSegments.toList
  parameters := head.uri.query.toList.map fun (name, text) =>
    (name.decode.getD "", (text.bind (·.decode)).getD "")

instance : Std.Http.Server.Handler (Std.Mutex Live) where
  onRequest live request := do
    let reply ← (answer live (requestOf request.line) : IO Reply)
    let status := (Std.Http.Status.ofCode none reply.status.toUInt16).getD .internalServerError
    let plain := Std.Http.Response.withStatus status
    let placed := (reply.location.bind (plain.header? "location")).getD plain
    let response ← placed.json (reply.body.elim "" Value.toLine)
    return { response with body := .ofBody response.body }

def socketOf (server : CommandLine.Server) : IO Std.Net.SocketAddress := do
  let port := server.port.toNat.toUInt16
  match (← (Std.Async.DNS.getAddrInfo server.host "").block).toList with
  | .v4 addr :: _ => return .v4 ⟨addr, port⟩
  | .v6 addr :: _ => return .v6 ⟨addr, port⟩
  | [] => throw (.userError ("no address of " ++ server.host))

def serveOn (here : Situation) (i : Invocation) (file : Option Store.File) : IO UInt32 := do
  IO.eprintln "Starting catalog search service..."
  let sink := Log.Sink.configured here.environment
  match (loadSettings here.environment).run.run {} with
  | (.error failure, report) => giveUp (sink none none) failure i report
  | (.ok s, _) =>
    let sink := sink (some s.logLevel) (some s.logFormat)
    let (started, logs) := (App.mk (.ofEnvironment here.environment) none).start here.around
    writeLogs sink logs
    match started with
    | .error failure => giveUp sink failure i {}
    | .ok app =>
      let live ← Std.Mutex.new
        { app, sink, path := s.databasePath, file : Live }
      discard (Std.Http.Server.serve (← socketOf (serverOf s i)) live).block
      runOn live

def perform (environment : Settings.Environment) (i : Invocation) : IO UInt32 := do
  let isService := i.command = .serve
  let environment := if isService then
    (serviceEnvironment environment i.database).toOption.getD environment else environment
  let settings := (settingsFor environment (if isService then none else i.database)).run.run {}
  let path := settings.1.toOption.elim "" (·.databasePath)
  let target ← look none path
  let here ← situation environment path target
  let file := match target with
    | .file file => some file
    | _ => none
  match i.command with
  | .serve => serveOn here i file
  | .watch => watchOn here i file
  | _ => finish (.configured environment none none) (CommandLine.perform here i)

end DiskCatalog.Program

open DiskCatalog.Program in
def main (words : List String) : IO UInt32 := do
  let environment ← readEnvironment
  match DiskCatalog.CommandLine.read words with
  | .ok i => perform environment i
  | .error stop =>
    if stop = .misused then IO.eprintln DiskCatalog.CommandLine.usage
    let here ← situation environment "" (.fault .missing)
    finish (.configured environment none none) (DiskCatalog.CommandLine.run here words)
