import DiskCatalog.Store.Reading

/-!
# Index entries

An entry is what a search finds: an item with its name, kind, size, dates, path and volume.
-/

namespace DiskCatalog.Index

open Store

structure Entry where
  id : Int
  name : TextCell
  kind : ItemKind
  size : Option Int
  modified : Option String
  created : Option String
  fullPath : Option String
  volumeLabel : Option TextCell
  volumeRoot : Option TextCell
  deriving DecidableEq, Repr

def columns : List String :=
  ["id", "name", "itype", "size", "date_modified", "date_created", "full_path", "volume_label",
   "volume_path"]

namespace Entry

/-- The row of an entry, in the order of the columns. -/
def toRow (e : Entry) : List Value :=
  [.int e.id, e.name.toValue, .int e.kind.number, .ofInt? e.size, .ofText? e.modified,
   .ofText? e.created, .ofText? e.fullPath, TextCell.toValue? e.volumeLabel,
   TextCell.toValue? e.volumeRoot]

end Entry

/-- Numbers of entries by kind, and the size of the files together. -/
structure Statistics where
  items : Nat
  files : Nat
  folders : Nat
  volumes : Nat
  sizeBytes : Int
  deriving DecidableEq, Repr

namespace Statistics

/-- The size that an entry adds to the size of the files. -/
def countedSize (e : Entry) : Int :=
  if e.kind = .file then e.size.getD 0 else 0

/-- The sum of numbers, unless one of the sums on the way cannot be stored. -/
def storedSum (acc : Int) : List Int → Except QueryFault Int
  | [] => .ok acc
  | n :: ns => if Store.isStorable (acc + n) then storedSum (acc + n) ns else .error .sumOverflow

def countKind (kind : ItemKind) (entries : List Entry) : Nat :=
  (entries.filter (·.kind = kind)).length

/-- The statistics of entries in the order of their ids. -/
def ofEntries (entries : List Entry) : Except QueryFault Statistics := do
  let sizeBytes ← storedSum 0 (entries.map countedSize)
  .ok {
    items := entries.length
    files := countKind .file entries
    folders := countKind .folder entries
    volumes := countKind .volume entries
    sizeBytes }

end Statistics

end DiskCatalog.Index
