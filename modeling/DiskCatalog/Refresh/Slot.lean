import DiskCatalog.Refresh.Lifetime

/-!
# The slot of the current generation

Every generation that was built is kept here with its lifetime, and the slot says which one is
searched.  Each function is one step that nothing can come between: readers enter and leave, a new
generation is published, an old one is retired, and closing happens in two steps, a mark that stops
all publishing and later the emptying of the slot.
-/

namespace DiskCatalog.Refresh

structure Slot where
  /-- Every generation that was built, in order. -/
  built : Array Held := #[]
  current : Option Nat := none
  signature : Option Store.Signature := none
  number : Nat := 0
  /-- When the generation was published that was published last. -/
  loaded : Option Calendar.DateTime := none
  closed : Bool := false
  deriving DecidableEq, Repr

namespace Slot

def hasLoaded (s : Slot) : Bool :=
  0 < s.number

def held? (s : Slot) : Option Held :=
  s.current.bind (s.built[·]?)

def add (s : Slot) (g : Index.Generation) : Slot × Nat :=
  ({ s with built := s.built.push { generation := g } }, s.built.size)

def setLifetime (s : Slot) (index : Nat) (f : Lifetime → Lifetime) : Slot :=
  { s with built := s.built.modify index fun h => { h with lifetime := f h.lifetime } }

def enter (s : Slot) : Except Failure (Slot × Nat) :=
  match s.current with
  | none => .error .indexNotBuilt
  | some index =>
    match s.built[index]? with
    | none => .error .indexNotBuilt
    | some held =>
      held.lifetime.acquire.map fun entered => (s.setLifetime index fun _ => entered, index)

def leave (s : Slot) (index : Nat) : Slot :=
  s.setLifetime index Lifetime.release

def retire (s : Slot) (index : Nat) : Slot :=
  s.setLifetime index Lifetime.retire

/-- Puts a generation into the slot at a time, unless the slot is closed.  Beside the slot stand
the generation to retire, which is the new one if it was refused, and whether it was published. -/
def publish (s : Slot) (index : Nat) (now : Calendar.DateTime) : Slot × Option Nat × Bool :=
  if s.closed then (s, some index, false)
  else
    ({ s with
        current := some index
        signature := (s.built[index]?).map (·.generation.signature)
        number := s.number + 1
        loaded := some now },
      s.current, true)

/-- Marks the slot as closed: nothing is published any more. -/
def shut (s : Slot) : Slot :=
  { s with closed := true }

/-- Empties the slot, which goes on telling when it was filled last; beside it stands the
generation to retire. -/
def clear (s : Slot) : Slot × Option Nat :=
  ({ s with current := none, signature := none }, s.current)

end Slot

end DiskCatalog.Refresh
