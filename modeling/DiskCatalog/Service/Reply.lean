import DiskCatalog.Failure
import DiskCatalog.Log.Record
import DiskCatalog.Value.Basic

/-!
# Replies

A reply has a status and a body, and an error has its status repeated in its body, under a title.
`Reply.ofFailure` answers a request that failed: a search before the first build is too early, and
every failure that nothing else is said about is an error of the service, which is logged.  A body
that cannot be written is an error of the service, too; what is said of it then is left out here.
-/

namespace DiskCatalog.Service

def badRequest : Nat := 400
def notFound : Nat := 404
def methodNotAllowed : Nat := 405
def serviceError : Nat := 500
def notReady : Nat := 503

def errorTitle (status : Nat) : String :=
  match status with
  | 400 => "Bad Request"
  | 404 => "Not Found"
  | 500 => "Internal Server Error"
  | 503 => "Service Unavailable"
  | _ => "Error"

def errorBody (status : Nat) (message : String) : Value :=
  .object [("error", .text (errorTitle status)), ("message", .text message),
    ("statusCode", .int status)]

structure Reply where
  status : Nat
  /-- The body, where it is one of JSON that is told. -/
  body : Option Value
  location : Option String := none
  deriving Repr

namespace Reply

def found (body : Value) : Reply :=
  { status := 200, body := some body }

def page : Reply :=
  { status := 200, body := none }

def moved (location : String) : Reply :=
  { status := 307, body := none, location := some location }

def error (status : Nat) (message : String) : Reply :=
  { status, body := some (errorBody status message) }

/-- The message, or another one where it is empty. -/
def worded (message default : String) : String :=
  if message.isEmpty then default else message

/-- The reply to a request that failed, with what is logged. -/
def ofFailure (failure : Failure) : Reply × List Log.Record :=
  if failure.kind = .indexNotReady then (error notReady failure.message, [])
  else
    (error serviceError (worded failure.message "An unexpected error occurred"),
      [Log.failure ("Unhandled exception: " ++ failure.message)])

def ofBody : Option Value → Reply
  | some body => found body
  | none => { status := serviceError, body := none }

/-- The reply to a request that may have failed. -/
def ofResult (body : α → Option Value) : Except Failure α → Reply × List Log.Record
  | .ok result => (ofBody (body result), [])
  | .error failure => ofFailure failure

end Reply

end DiskCatalog.Service
