import Std.Data.TreeMap.Basic

/-!
# Folder sizes

The size of a folder is the sum of the sizes of the files from which it is reached by following
links upwards, each file counted once however many ways lead up from it.
-/

namespace DiskCatalog.Index.FolderSize

/-- What a climb has met and still has to look at. -/
structure Climb where
  stack : List Int
  visited : List Int

/-- One step of a climb: an item that has not been met is visited and its parents are looked at
next, the last of them first. -/
def Climb.step (parents : Int → List Int) (c : Climb) : Climb :=
  match c.stack with
  | [] => c
  | item :: rest =>
    if c.visited.contains item then { c with stack := rest }
    else ⟨(parents item).reverse ++ rest, item :: c.visited⟩

def Climb.run (parents : Int → List Int) : Nat → Climb → Climb
  | 0, c => c
  | fuel + 1, c =>
    match c.stack with
    | [] => c
    | _ => Climb.run parents fuel (c.step parents)

/-- More steps than any climb takes: each link is looked at once and the first links once more. -/
def maxSteps (parents : Std.TreeMap Int (List Int)) : Nat :=
  2 * parents.foldl (fun n _ above => n + above.length) 0 + 1

/-- The items above an item, each once; the item itself is not among them. -/
def above (parents : Std.TreeMap Int (List Int)) (steps : Nat) (item : Int) : List Int :=
  let parentsOf (i : Int) := parents.getD i []
  let climb := Climb.run parentsOf steps ⟨(parentsOf item).reverse, [item]⟩
  climb.visited.erase item

abbrev Sizes := Std.TreeMap Int Int

/-- Adds a size to a folder; other items have no size here. -/
def addTo (size : Int) (sizes : Sizes) (item : Int) : Sizes :=
  match sizes.get? item with
  | some total => sizes.insert item (total + size)
  | none => sizes

/-- Adds the size of a file to every folder above it. -/
def addFile (parents : Std.TreeMap Int (List Int)) (steps : Nat) (sizes : Sizes)
    (file : Int × Option Int) : Sizes :=
  match file.2 with
  | none => sizes
  | some size => if size = 0 then sizes else (above parents steps file.1).foldl (addTo size) sizes

def total (parents : Std.TreeMap Int (List Int)) (files : List (Int × Option Int))
    (folders : List Int) : Sizes :=
  files.foldl (addFile parents (maxSteps parents))
    (folders.foldl (fun sizes folder => sizes.insert folder 0) ∅)

end DiskCatalog.Index.FolderSize
