/-!
# Log records

The package logs under the name of a module; what counts here is the severity and the message.
-/

namespace DiskCatalog.Log

inductive Severity where
  | debug
  | info
  | warning
  | error
  | critical
  deriving DecidableEq, Repr

namespace Severity

def number : Severity → Nat
  | .debug => 10
  | .info => 20
  | .warning => 30
  | .error => 40
  | .critical => 50

def name : Severity → String
  | .debug => "DEBUG"
  | .info => "INFO"
  | .warning => "WARNING"
  | .error => "ERROR"
  | .critical => "CRITICAL"

end Severity

structure Record where
  severity : Severity
  message : String
  /-- Whether the failure at hand is shown below the message. -/
  withFailure : Bool := false
  deriving DecidableEq, Repr

def warning (message : String) : Record :=
  { severity := .warning, message }

def error (message : String) : Record :=
  { severity := .error, message }

def failure (message : String) : Record :=
  { severity := .error, message, withFailure := true }

end DiskCatalog.Log
