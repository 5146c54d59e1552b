import DiskCatalog.Log.Level
import DiskCatalog.Settings.Environment
import DiskCatalog.Settings.Lenient

/-!
# Settings

The settings of a service come from an environment.  Reading them never stops at a text that is
unusable: the setting keeps its default and a warning is logged.  `Settings.problems` are the
values that can be read and still cannot be used.
-/

namespace DiskCatalog

structure Settings where
  databasePath : String := "/data/catalog.w3cat"
  excludes : List String := []
  minFileSize : Int := 0
  nightlyHour : Int := 0
  maxDepth : Int := 100
  /-- Seconds without a change after which changes are taken up. -/
  debounce : Binary64
  watch : Bool := true
  polling : Bool := false
  host : String := "0.0.0.0"
  port : Int := 3000
  logLevel : String := "INFO"
  logFormat : String := "text"
  deriving DecidableEq, Repr

namespace Settings

def defaultDebounce : Binary64 :=
  Binary64.ofQuotient false 1 2

def default : Settings := { debounce := defaultDebounce }

/-- The patterns of a list separated by commas, without blanks around them and without blank
ones. -/
def excludePatterns (raw : String) : List String :=
  ((Text.pieces ',' raw.toList).map Text.trim).filterMap fun p =>
    if p.isEmpty then none else some (String.ofList p)

def readVariable (form : Form α) (env : Environment) (name : String) (default : α) :
    Except Failure (Setting α) :=
  form.lenient name default (.ofText? (env.get? name))

/-- The hour of the nightly refresh; an hour that is not one of the day has the default. -/
def nightlyHourOf (env : Environment) : Except Failure (Setting Int) := do
  let hour ← readVariable .integer env "NIGHTLY_REFRESH_HOUR" default.nightlyHour
  if 0 ≤ hour.value ∧ hour.value ≤ 23 then .ok hour
  else .ok ⟨default.nightlyHour, hour.logs ++ [Log.warning
    ("Invalid refresh hour " ++ Text.ofInt hour.value ++ ", must be 0-23. Using default: " ++
      Text.ofInt default.nightlyHour)]⟩

def logLevels : List String := ["CRITICAL", "ERROR", "WARNING", "INFO", "DEBUG"]

def logFormats : List String := ["text", "json"]

/-- One of some words, after a reading of the text that was set; the default for any other. -/
def oneOf (words : List String) (read : String → String) (default : String)
    (warning : String → String) (set : Option String) : Setting String :=
  match set.filter (!·.isEmpty) with
  | none => ⟨default, []⟩
  | some text =>
    let word := read (Text.trimString text)
    if words.contains word then ⟨word, []⟩ else ⟨default, [Log.warning (warning text)]⟩

def logLevelOf (env : Environment) : Setting String :=
  oneOf logLevels Text.raiseKeyword default.logLevel
    (fun text => "Invalid LOG_LEVEL " ++ Text.quoted text ++ ", using default: INFO")
    (env.get? "LOG_LEVEL")

def logFormatOf (env : Environment) : Setting String :=
  oneOf logFormats Text.lowerKeyword default.logFormat
    (fun text => "Invalid LOG_FORMAT " ++ Text.quoted text ++
      ", must be one of ('text', 'json'). Using default: text")
    (env.get? "LOG_FORMAT")

def load (env : Environment) : Except Failure (Setting Settings) := do
  let minFileSize ← readVariable .integer env "MIN_FILE_SIZE" default.minFileSize
  let nightlyHour ← nightlyHourOf env
  let maxDepth ← readVariable .integer env "MAX_ANCESTRY_DEPTH" default.maxDepth
  let debounce ← readVariable .number env "WATCH_DEBOUNCE_SECS" default.debounce
  let watch ← readVariable .truth env "WATCH_ENABLED" default.watch
  let polling ← readVariable .truth env "WATCH_USE_POLLING" default.polling
  let port ← readVariable .integer env "PORT" default.port
  let logLevel := logLevelOf env
  let logFormat := logFormatOf env
  .ok {
    value := {
      databasePath := (env.firstSet ["CATALOG_DB_PATH", "DB_PATH"]).getD default.databasePath
      excludes := excludePatterns ((env.get? "EXCLUDE_PATTERNS").getD "")
      minFileSize := minFileSize.value
      nightlyHour := nightlyHour.value
      maxDepth := maxDepth.value
      debounce := debounce.value
      watch := watch.value
      polling := polling.value
      host := (env.firstSet ["HOST"]).getD default.host
      port := port.value
      logLevel := logLevel.value
      logFormat := logFormat.value }
    logs := minFileSize.logs ++ nightlyHour.logs ++ maxDepth.logs ++ debounce.logs ++
      watch.logs ++ polling.logs ++ port.logs ++ logLevel.logs ++ logFormat.logs }

def variableNames : List String :=
  ["CATALOG_DB_PATH", "DB_PATH", "EXCLUDE_PATTERNS", "MIN_FILE_SIZE", "NIGHTLY_REFRESH_HOUR",
    "MAX_ANCESTRY_DEPTH", "WATCH_DEBOUNCE_SECS", "WATCH_ENABLED", "WATCH_USE_POLLING", "HOST",
    "PORT", "LOG_LEVEL", "LOG_FORMAT"]

/-- What is wrong with settings that could be read. -/
def problems (s : Settings) : List String :=
  (if s.port < 1 ∨ 65535 < s.port then
    ["Invalid port number: " ++ Text.ofInt s.port ++ ". Must be between 1-65535"] else []) ++
  (if s.minFileSize < 0 then
    ["Invalid minimum file size: " ++ Text.ofInt s.minFileSize ++ ". Must be >= 0"] else []) ++
  (if s.maxDepth < 1 then
    ["Invalid ancestry depth: " ++ Text.ofInt s.maxDepth ++ ". Must be >= 1"] else []) ++
  (if s.debounce.isNegative then
    ["Invalid debounce window: " ++ s.debounce.toText ++ ". Must be >= 0"] else [])

end Settings

end DiskCatalog
