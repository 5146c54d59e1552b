import DiskCatalog.Failure
import DiskCatalog.Log.Level
import DiskCatalog.Settings.Environment
import DiskCatalog.Value.Json

/-!
# Layouts of log lines

A line is written as a text or as one JSON object.  The object holds the fields of the context
beside the message; a field of a name that is there already takes its place.
-/

namespace DiskCatalog.Log

structure Raised where
  name : String
  fullName : String
  text : String
  deriving DecidableEq, Repr

/-- The text of a failure that was raised with some arguments. -/
def raisedText (kind : FailureKind) (arguments : List Value) : String :=
  match arguments with
  | [] => ""
  | [v] => if kind = .key then v.quoted else v.shown
  | vs => "(" ++ Value.quotedItems vs ++ ")"

def Raised.of (kind : FailureKind) (text : String) : Raised :=
  ⟨kind.name, kind.fullName, text⟩

inductive FailurePart where
  | omitted
  /-- A failure was to be shown and there was none. -/
  | missing
  | shown (raised : Raised)
  deriving DecidableEq, Repr

structure Line where
  moment : String
  level : Int
  logger : String
  message : String
  fields : List (String × Value) := []
  failure : FailurePart := .omitted

/-- Sets a field: in its place if the name is there, else behind the others. -/
def setField (name : String) (value : Value) :
    List (String × Value) → List (String × Value)
  | [] => [(name, value)]
  | (n, v) :: rest =>
    if n = name then (name, value) :: rest else (n, v) :: setField name value rest

def setFields (fields new : List (String × Value)) : List (String × Value) :=
  new.foldl (fun fields f => setField f.1 f.2 fields) fields

namespace Line

/-- The fields of the JSON object of a line. -/
def toFields (l : Line) : List (String × Value) :=
  let fields := setFields
    [("timestamp", .text l.moment), ("level", .text (levelName l.level)),
     ("logger", .text l.logger), ("message", .text l.message)] l.fields
  match l.failure with
  | .shown raised =>
    setField "exception"
      (.object [("type", .text raised.name), ("message", .text raised.text),
        ("traceback", .list [])]) fields
  | _ => fields

/-- The lines below the message that show the failure. -/
def failureText : FailurePart → Option String
  | .omitted => none
  | .missing => some "NoneType: None"
  | .shown raised =>
    some ("Traceback\n" ++ raised.fullName ++
      (if raised.text.isEmpty then "" else ": " ++ raised.text))

def toText (l : Line) : String :=
  let head := l.moment ++ " - " ++ l.logger ++ " - " ++ levelName l.level ++ " - " ++ l.message
  match failureText l.failure with
  | none => head
  | some below =>
    head ++ (if head.toList.getLast? = some '\n' then "" else "\n") ++ below

end Line

inductive Layout where
  | text
  | json
  deriving DecidableEq, Repr

/-- The layout with a name; any name but the one of JSON means text. -/
def Layout.ofName (name : String) : Layout :=
  if Text.lowerKeyword name = "json" then .json else .text

/-- A line as it is written out, with its end. -/
def Layout.write (layout : Layout) (l : Line) : String :=
  (match layout with
    | .text => l.toText
    | .json => (Value.object l.toFields).toLine) ++ "\n"

/-- Where log lines go: how they look, and the level that they need. -/
structure Sink where
  level : Nat
  layout : Layout
  deriving DecidableEq, Repr

namespace Sink

/-- The first name that is not empty: the one given, or the one of a variable. -/
def chosen (given : Option String) (env : Settings.Environment) (name : String) :
    Option String :=
  (given.filter (!·.isEmpty)).or ((env.get? name).filter (!·.isEmpty))

/-- The sink with a level and a layout by name; the environment has the names not given. -/
def configured (env : Settings.Environment) (level layout : Option String) : Sink where
  level := levelOf ((chosen level env "LOG_LEVEL").getD Severity.info.name)
  layout := .ofName ((chosen layout env "LOG_FORMAT").getD "text")

def write (s : Sink) (lines : List Line) : String :=
  String.join ((lines.filter fun l => (s.level : Int) ≤ l.level).map s.layout.write)

end Sink

end DiskCatalog.Log
