import DiskCatalog.CommandLine.Invocation
import DiskCatalog.Log.Level
import DiskCatalog.Service.App
import DiskCatalog.Value.Json

/-!
# Carrying out commands

A command prints its result as JSON, or a failure on one line, and ends with an exit code.  Three
commands build an index and ask it, one shows the tables of any database, one serves requests and
one keeps the index fresh; the last two run until something ends them.

`Report` is what a command line leads to: what it prints, notes and logs, and what it starts.
-/

namespace DiskCatalog.CommandLine

open Refresh

/-- How a command ends that runs until it is stopped. -/
inductive Ending where
  | returned
  | interrupted
  | failed (failure : Failure)

structure Situation where
  environment : Settings.Environment
  moment : Service.Moment
  ending : Ending := .interrupted

def Situation.around (s : Situation) : Surroundings :=
  s.moment.around

def Situation.disk (s : Situation) : Store.Disk :=
  s.around.disk

/-- How the requests of a service are taken in. -/
structure Server where
  host : String
  port : Int
  logLevel : String
  /-- Whether the server keeps the layout of its own log lines. -/
  ownLayout : Bool
  deriving DecidableEq, Repr

structure Report where
  exit : Nat := 0
  output : String := ""
  notes : List String := []
  logs : List Log.Record := []
  traced : Bool := false
  servers : List Server := []
  observers : List Observer := []
  deriving DecidableEq, Repr

def exitFailed : Nat := 1
def exitMisused : Nat := 2
def exitInterrupted : Nat := 130

/-- A part of a command, which adds to its report. -/
abbrev Work := ExceptT Failure (StateM Report)

namespace Work

def get (result : Except Failure α) : Work α :=
  MonadExcept.ofExcept result

def log (records : List Log.Record) : Work Unit :=
  modify fun r => { r with logs := r.logs ++ records }

def note (text : String) : Work Unit :=
  modify fun r => { r with notes := r.notes ++ [text] }

def print (fields : List (String × Value)) : Work Unit :=
  modify fun r =>
    { r with output := r.output ++ (Value.object (("ok", .bool true) :: fields)).toLines 0 ++ "\n" }

def observe (c : Coordinator) : Work Unit :=
  modify fun r => { r with observers := c.observers.toList }

end Work

def failureLine (failure : Failure) : String :=
  (Value.object [("ok", .bool false), ("error", .text failure.message)]).toLine ++ "\n"

def loadSettings (environment : Settings.Environment) : Work Settings := do
  let loaded ← Work.get (Settings.load environment)
  Work.log loaded.logs
  return loaded.value

/-- The text of an option, unless it is empty. -/
def filled (text : Option String) : Option String :=
  text.filter (!·.isEmpty)

/-- The settings of the environment, with the catalog that an option names. -/
def settingsFor (environment : Settings.Environment) (database : Option String) :
    Work Settings := do
  let settings ← loadSettings environment
  match filled database with
  | none => return settings
  | some path =>
    let databasePath ← Work.get (Path.expand (environment.get? "HOME") path)
    return { settings with databasePath }

/-! ### Questions to an index -/

def built (here : Situation) (settings : Settings) : Work Coordinator := do
  let c := (Coordinator.ofPlan (.ofSettings settings)).setClock here.around.utc
  let (c, result, logs) := c.rebuild .first here.disk
  Work.log logs
  discard (Work.get result)
  return c

def ask (here : Situation) (database : Option String)
    (question : Coordinator → Coordinator × Except Failure α × List Log.Record) : Work α := do
  let settings ← settingsFor here.environment database
  let c ← built here settings
  let (_, result, logs) := question c
  Work.log logs
  Work.get result

def search (here : Situation) (i : Invocation) : Work Unit := do
  let found ← ask here i.database fun c =>
    c.search (i.query.getD "") i.limit i.offset here.disk
  Work.print (found.toFields 0)

def random (here : Situation) (i : Invocation) : Work Unit := do
  let picked ← ask here i.database fun c => c.random here.moment.number here.disk
  Work.print [("result", picked.toValue)]

/-- How the index was built, after so many milliseconds. -/
def buildFields (r : Index.Report) (elapsedMs : Nat) : List (String × Value) :=
  [("candidates", .int r.candidates), ("excludedByDirectory", .int r.excludedByDirectory),
   ("rejectedPatterns", .list (r.rejected.map .text)), ("elapsedMs", .int elapsedMs)]

def status (here : Situation) (i : Invocation) : Work Unit := do
  let (status, report) ← ask here i.database fun c =>
    (c, do
      let status ← c.status here.disk
      let report ← c.reading fun held => .ok held.generation.report
      .ok (status, report), [])
  Work.print (status.toFields ++ [("build", .object (buildFields report 0))])

/-! ### Tables -/

def inspect (here : Situation) (i : Invocation) : Work Unit := do
  let settings ← settingsFor here.environment i.database
  let path := settings.databasePath
  let catalog ← Work.get (Store.openDatabase path (here.disk path))
  Work.print [("path", .text path), ("tables", .list (catalog.tables.map (·.toValue)))]

/-! ### Commands that run -/

/-- The server of a service; an option that is empty or zero leaves the setting as it is. -/
def serverOf (s : Settings) (i : Invocation) : Server where
  host := (filled i.host).getD s.host
  port := (i.port.filter (· ≠ 0)).getD s.port
  logLevel := Text.lowerKeyword s.logLevel
  ownLayout := s.logFormat != "json"

/-- The environment of a service, with the catalog that an option names. -/
def serviceEnvironment (environment : Settings.Environment) (database : Option String) :
    Except Failure Settings.Environment :=
  match filled database with
  | none => .ok environment
  | some path => environment.assign "CATALOG_DB_PATH" path

def serve (here : Situation) (i : Invocation) : Work Unit := do
  let environment ← Work.get (serviceEnvironment here.environment i.database)
  Work.note "Starting catalog search service..."
  let settings ← loadSettings environment
  modify fun r => { r with servers := r.servers ++ [serverOf settings i] }
  match here.ending with
  | .returned => return ()
  | .interrupted => modify fun r => { r with exit := exitInterrupted }
  | .failed failure => throw failure

/-- Lets the log lines of a part of the work through that reach a level.  A failure that is shown
below one of them counts as a trace. -/
def atLevel (level : Nat) (work : Work α) : Work α := fun before =>
  let (result, after) := work.run.run { before with logs := [] }
  let passed := Log.passing level after.logs
  pure (result, { after with
    logs := before.logs ++ passed, traced := after.traced || passed.any (·.withFailure) })

def watchNote (s : Settings) (items : Nat) : String :=
  "Watching " ++ s.databasePath ++ " (" ++ Text.ofInt items ++ " items, " ++
    (if s.polling then "polling" else "native") ++ " events)"

/-- Builds the index, and starts watching and refreshing. -/
def startWatch (here : Situation) (s : Settings) : Work Coordinator := do
  let c ← built here s
  Work.note (watchNote s (c.slot.held?.elim 0 (·.generation.statistics.items)))
  let (c, started) := c.startWatching here.around.here here.around.refusal
  Work.observe c
  Work.get started
  let (c, scheduled) := c.scheduleHourly here.around.now
  Work.get scheduled
  return c

def watchOver (here : Situation) (s : Settings) : Work Unit := do
  let c ← startWatch here s
  Work.observe c.close
  match here.ending with
  | .failed failure => throw failure
  | _ => Work.note "Stopping watcher..."

def watch (here : Situation) (i : Invocation) : Work Unit := do
  let settings ← settingsFor here.environment i.database
  atLevel (Log.levelOf settings.logLevel) (watchOver here settings)

/-! ### Command lines -/

def programName : String := "catalog-search"

def version : String := "0.1.0.dev0"

/-- The words that a command line is made of. -/
def usage : String :=
  "usage: " ++ programName ++ " [-h] [--debug] [-v] \x7b" ++
    ",".intercalate (Command.all.map Command.name) ++ "\x7d ..."

def carryOut (here : Situation) (i : Invocation) : Work Unit :=
  match i.command with
  | .search => search here i
  | .random => random here i
  | .status => status here i
  | .inspect => inspect here i
  | .serve => serve here i
  | .watch => watch here i

def perform (here : Situation) (i : Invocation) : Report :=
  match (carryOut here i).run.run {} with
  | (.ok (), report) => report
  | (.error failure, report) =>
    { report with
      exit := exitFailed
      output := report.output ++ failureLine failure
      traced := report.traced || i.debug }

def run (here : Situation) (words : List String) : Report :=
  match read words with
  | .ok i => perform here i
  | .error .misused => { exit := exitMisused }
  | .error .help => { output := usage ++ "\n" }
  | .error .version => { output := programName ++ " " ++ version ++ "\n" }

end DiskCatalog.CommandLine
