import DiskCatalog.Index.Entry

/-!
# Search results

A result shows a row of the index: its path is the one below the root of its volume, or below the
label of its volume in brackets, and a row without a path is shown by its name.  Below a root that
is no text but bytes nothing can be shown.
-/

namespace DiskCatalog.Search

open Index

/-- The name of a kind of items; the root of a catalog counts as a folder. -/
def typeName (itype : Value) : String :=
  if itype.equalsInt Store.ItemKind.volume.number then "volume"
  else if itype.equalsInt Store.ItemKind.folder.number || itype.equalsInt Store.rootType then
    "folder"
  else "file"

def joinRoot (root path : String) : String :=
  if root.toList.getLast? = some '/' ∨ root.toList.getLast? = some '\\' then root ++ path
  else root ++ "/" ++ path

def displayPath (name fullPath label root : Value) : Except Failure Value :=
  if fullPath.isEmpty then .ok name
  else if !root.isEmpty then
    match root with
    | .bytes _ => .error .bytesAsRoot
    | root => .ok (.text (joinRoot root.shown fullPath.shown))
  else if !label.isEmpty then .ok (.text ("[" ++ label.shown ++ "]/" ++ fullPath.shown))
  else .ok fullPath

structure Result where
  id : Int
  name : Value
  path : Value
  size : Int
  modified : Value
  created : Value
  type : String
  volumeLabel : Value
  volumeRoot : Value
  deriving Repr

namespace Result

/-- The result that shows a row of nine columns. -/
def ofRow (row : List Value) : Except Failure Result := do
  match row with
  | [id, name, itype, size, modified, created, fullPath, label, root] =>
    let id ← id.toInteger.mapError .number
    let path ← displayPath name fullPath label root
    let size ← if size.isEmpty then .ok 0 else size.toInteger.mapError .number
    .ok {
      id
      name
      path
      size
      modified
      created
      type := typeName itype
      volumeLabel := label
      volumeRoot := root }
  | _ => .error (.rowWidth row.length)

/-- The result that shows an entry. -/
def ofEntry (e : Entry) : Except Failure Result :=
  ofRow e.toRow

def toValue (r : Result) : Value :=
  .object [
    ("id", .int r.id), ("name", r.name), ("path", r.path), ("size", .int r.size),
    ("dateModified", r.modified), ("dateCreated", r.created), ("type", .text r.type),
    ("volumeLabel", r.volumeLabel), ("volumePath", r.volumeRoot)]

end Result

end DiskCatalog.Search
