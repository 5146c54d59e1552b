import DiskCatalog.Index.Build

/-!
# Lifetimes of generations

A generation that has been replaced is retired, and closes when nobody reads it any more.  Rows can
be read until then.
-/

namespace DiskCatalog.Refresh

structure Lifetime where
  readers : Int := 0
  retired : Bool := false
  closed : Bool := false
  deriving DecidableEq, Repr

namespace Lifetime

def settle (l : Lifetime) : Lifetime :=
  if l.retired && l.readers == 0 then { l with closed := true } else l

def acquire (l : Lifetime) : Except Failure Lifetime :=
  if l.closed then .error .generationClosed else .ok { l with readers := l.readers + 1 }

def release (l : Lifetime) : Lifetime :=
  { l with readers := l.readers - 1 }.settle

def retire (l : Lifetime) : Lifetime :=
  { l with retired := true }.settle

end Lifetime

/-- A generation that can be read as long as it is not closed. -/
structure Held where
  generation : Index.Generation
  lifetime : Lifetime := {}
  deriving DecidableEq, Repr

namespace Held

def entries (h : Held) : Except Failure (List Index.Entry) :=
  if h.lifetime.closed then .error .databaseClosed else .ok h.generation.entries

def count (h : Held) : Except Failure Nat :=
  h.entries.map List.length

def entry? (h : Held) (id : Int) : Except Failure (Option Index.Entry) := do
  let entries ← h.entries
  if Store.isStorable id then .ok (entries.find? (·.id == id)) else .error .beyondStoredInteger

end Held

end DiskCatalog.Refresh
