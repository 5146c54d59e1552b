import Std.Data.TreeMap.Basic
import DiskCatalog.Store.Reading

/-!
# Ancestries

The ancestry of an item is a chain of items above it: its names read from below the volume down to
the item itself, the volume if one was reached, and the number of steps taken upwards.  An item may
have several parents; the chain that is kept reaches a volume if any does, is the longest of those,
and goes through the lowest id among equals.

`Walk.step` is one step of the walk: the stack holds the items still to be settled, an item is open
while the items above it are being settled, and a chain that was cut at an open item holds for
this walk only.  `ItemGraph.ancestry` runs the walk to its end.
-/

namespace DiskCatalog.Index

open Store

/-- The links between items, the names of those that exist, and which of them are volumes. -/
structure ItemGraph where
  parents : Std.TreeMap Int (List Int)
  name? : Int → Option TextCell
  isVolume : Int → Bool

namespace ItemGraph

def parentsOf (g : ItemGraph) (item : Int) : List Int :=
  g.parents.getD item []

def isNamed (g : ItemGraph) (item : Int) : Bool :=
  (g.name? item).isSome

def nameOf (g : ItemGraph) (item : Int) : TextCell :=
  (g.name? item).getD ""

end ItemGraph

structure Ancestry where
  /-- The names from below the volume down to the item. -/
  segments : List TextCell
  volume : Option Int
  depth : Nat
  deriving DecidableEq, Repr

namespace Ancestry

/-- Whether a chain is kept rather than one met before it. -/
def outranks (a b : Ancestry) : Bool :=
  if a.volume.isSome == b.volume.isSome then b.depth < a.depth else a.volume.isSome

/-- The path that the names make up; there is none without names, and only texts make up one. -/
def fullPath (a : Ancestry) : Except Failure (Option String) :=
  match a.segments.findIdx? (!·.isText) with
  | some place => .error (.bytesInPath place)
  | none =>
    .ok (if a.segments.isEmpty then none else some ("/".intercalate (a.segments.map (·.shown))))

/-- The chain of an item that is its own volume. -/
def ofVolume (item : Int) : Ancestry :=
  ⟨[], some item, 0⟩

def alone (name : TextCell) : Ancestry :=
  ⟨[name], none, 0⟩

/-- The chain one step below another.  Beyond the bound only the nearest names are kept and the
volume is given up. -/
def extend (bound : Nat) (above : Ancestry) (name : TextCell) : Ancestry :=
  let segments := above.segments ++ [name]
  if bound < above.depth + 1 then
    ⟨segments.drop (segments.length - (bound + 1)), none, bound⟩
  else ⟨segments, above.volume, above.depth + 1⟩

/-- The better of a chain met before and another; the one before is kept on a tie. -/
def better (before : Option Ancestry) (chain : Ancestry) : Ancestry :=
  match before with
  | none => chain
  | some best => if chain.outranks best then chain else best

end Ancestry

abbrev Memo := Std.TreeMap Int Ancestry

structure Walk where
  /-- Items still to be settled; the next one comes first, and an item may stand there twice. -/
  stack : List Int
  openItems : List Int
  provisional : Memo
  memo : Memo

namespace Walk

def start (memo : Memo) (item : Int) : Walk :=
  ⟨[item], [], ∅, memo⟩

def isSettled (w : Walk) (item : Int) : Bool :=
  w.memo.contains item || w.provisional.contains item

/-- The parents that have to be settled before an item. -/
def pending (g : ItemGraph) (w : Walk) (item : Int) : List Int :=
  (g.parentsOf item).filter fun p =>
    g.isNamed p && !g.isVolume p && !w.isSettled p && !w.openItems.contains p

/-- The chain through one parent, and whether it holds for every walk.  There is none when the
parent has not been settled. -/
def through (g : ItemGraph) (bound : Nat) (w : Walk) (name : TextCell) (parent : Int) :
    Option (Ancestry × Bool) :=
  if !g.isNamed parent then some (.alone name, true)
  else if g.isVolume parent then some (⟨[name], some parent, 1⟩, true)
  else if w.openItems.contains parent then some (.alone name, false)
  else match w.provisional.get? parent with
    | some above => some (above.extend bound name, false)
    | none => (w.memo.get? parent).map fun above => (above.extend bound name, true)

/-- The best chain through some parents, continuing from the best so far. -/
def bestOver (g : ItemGraph) (bound : Nat) (w : Walk) (name : TextCell)
    (best : Option Ancestry) (exact : Bool) : List Int → Option (Option Ancestry × Bool)
  | [] => some (best, exact)
  | parent :: parents => do
    let (chain, holds) ← w.through g bound name parent
    bestOver g bound w name (some (Ancestry.better best chain)) (exact && holds) parents

/-- The best chain of an item, and whether it holds for every walk. -/
def best (g : ItemGraph) (bound : Nat) (w : Walk) (item : Int) : Option (Ancestry × Bool) := do
  let name := g.nameOf item
  let (best, exact) ← w.bestOver g bound name none true (g.parentsOf item)
  some (best.getD (.alone name), exact)

def settle (w : Walk) (item : Int) (rest : List Int) (chain : Ancestry) (exact : Bool) : Walk where
  stack := rest
  openItems := w.openItems.erase item
  provisional := if exact then w.provisional else w.provisional.insert item chain
  memo := if exact then w.memo.insert item chain else w.memo

/-- Settles the item on top of the stack with its best chain. -/
def settleBest (g : ItemGraph) (bound : Nat) (w : Walk) (item : Int) (rest : List Int) :
    Option Walk :=
  (w.best g bound item).map fun (chain, exact) => w.settle item rest chain exact

/-- One step; there is none when the stack is empty or a parent has not been settled. -/
def step (g : ItemGraph) (bound : Nat) (w : Walk) : Option Walk :=
  match w.stack with
  | [] => none
  | item :: rest =>
    if w.isSettled item then some { w with stack := rest }
    else if w.openItems.contains item then w.settleBest g bound item rest
    else
      let opened := { w with openItems := item :: w.openItems }
      match opened.pending g item with
      | [] => opened.settleBest g bound item rest
      | above => some { opened with stack := above ++ w.stack }

def run (g : ItemGraph) (bound : Nat) : Nat → Walk → Walk
  | 0, w => w
  | fuel + 1, w =>
    match w.step g bound with
    | none => w
    | some next => run g bound fuel next

/-- The chain of an item that has been settled. -/
def find? (w : Walk) (item : Int) : Option Ancestry :=
  (w.memo.get? item).or (w.provisional.get? item)

end Walk

namespace ItemGraph

def linkCount (g : ItemGraph) : Nat :=
  g.parents.foldl (fun n _ parents => n + parents.length) 0

/-- More steps than any walk takes: each item with parents is opened once, and each link puts one
item on the stack, which is taken off again. -/
def maxSteps (g : ItemGraph) : Nat :=
  g.parents.size + g.linkCount + 2

/-- The bound on the steps of a chain: at least one. -/
def boundOf (maxDepth : Int) : Nat :=
  (max 1 maxDepth).toNat

/-- The ancestry of an item and what is remembered for later walks, in at most so many steps. -/
def resolveWithin (g : ItemGraph) (bound steps : Nat) (memo : Memo) (item : Int) :
    Ancestry × Memo :=
  if g.isVolume item then (.ofVolume item, memo)
  else match memo.get? item with
    | some known => (known, memo)
    | none =>
      let w := Walk.run g bound steps (.start memo item)
      ((w.find? item).getD (.alone (g.nameOf item)), w.memo)

/-- The ancestry of an item, and what is remembered for later walks. -/
def resolve (g : ItemGraph) (maxDepth : Int) (memo : Memo) (item : Int) : Ancestry × Memo :=
  g.resolveWithin (boundOf maxDepth) g.maxSteps memo item

/-- The ancestries of items, resolved one after the other. -/
def resolveEach (g : ItemGraph) (bound steps : Nat) (memo : Memo) : List Int → List Ancestry
  | [] => []
  | item :: items =>
    let (ancestry, memo) := g.resolveWithin bound steps memo item
    ancestry :: g.resolveEach bound steps memo items

def resolveAll (g : ItemGraph) (maxDepth : Int) (items : List Int) : List Ancestry :=
  g.resolveEach (boundOf maxDepth) g.maxSteps ∅ items

end ItemGraph

end DiskCatalog.Index
