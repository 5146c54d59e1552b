import DiskCatalog.Log.Record
import DiskCatalog.Text.Case
import DiskCatalog.Text.Digit

/-!
# Levels by name

A level is set by its name in any case; some levels have two names, and a name that is not known
stands for the level of information.
-/

namespace DiskCatalog.Log

def unsetLevel : Nat := 0

/-- The number of the level with a name in capitals. -/
def levelNumber? (name : String) : Option Nat :=
  match name with
  | "CRITICAL" | "FATAL" => some Severity.critical.number
  | "ERROR" => some Severity.error.number
  | "WARNING" | "WARN" => some Severity.warning.number
  | "INFO" => some Severity.info.number
  | "DEBUG" => some Severity.debug.number
  | "NOTSET" => some unsetLevel
  | _ => none

def levelOf (name : String) : Nat :=
  (levelNumber? (Text.raiseKeyword name)).getD Severity.info.number

/-- The name that a level number is written with. -/
def levelName (number : Int) : String :=
  match number with
  | 50 => Severity.critical.name
  | 40 => Severity.error.name
  | 30 => Severity.warning.name
  | 20 => Severity.info.name
  | 10 => Severity.debug.name
  | 0 => "NOTSET"
  | n => "Level " ++ Text.ofInt n

def passing (level : Nat) (records : List Record) : List Record :=
  records.filter fun r => level ≤ r.severity.number

end DiskCatalog.Log
