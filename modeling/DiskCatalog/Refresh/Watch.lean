import DiskCatalog.Path
import DiskCatalog.Value.Basic

/-!
# Watching the catalog file

An observer watches the directory of the catalog.  Of the changes that it sees those count that
write or create the catalog or move another file to its place.
-/

namespace DiskCatalog.Refresh

inductive EventKind where
  | modified
  | created
  | deleted
  | moved
  deriving DecidableEq, Repr

structure Event where
  kind : EventKind
  ofDirectory : Bool := false
  path : String
  target : String := ""
  deriving DecidableEq, Repr

/-- The path that an event gives a new content. -/
def Event.written? (e : Event) : Option String :=
  if e.ofDirectory then none
  else match e.kind with
    | .modified | .created => some e.path
    | .moved => some e.target
    | .deleted => none

/-- Whether an event concerns a file with a normal path; relative paths start `here`. -/
def Event.concerns (e : Event) (here source : String) : Bool :=
  e.written?.any fun path => !path.isEmpty && Path.absolute here path == source

structure Observer where
  /-- Whether it looks again and again and is not told of changes. -/
  polling : Bool
  directory : String
  started : Bool := false
  stopped : Bool := false
  deriving DecidableEq, Repr

/-- How the observer is told to look, and what it was told after that, in order. -/
def Observer.calls (o : Observer) : List Value :=
  [.text (if o.polling then "polling" else "native"),
    .list [.text "schedule", .text o.directory, .bool false]] ++
    (if o.started then [.text "start"] else []) ++
    (if o.stopped then [.text "stop", .text "join"] else [])

end DiskCatalog.Refresh
