import DiskCatalog.Store.Cell

/-!
# Catalog files

A catalog is a database with four tables: the items, what is known about files, the links from
items to their parents, and the volumes.  The items are kept by id, the links and the volumes in the
order in which they were stored.  A file that claims to be a catalog may hold anything.

Several rows may tell about one item.  In which order these are met is up to the query engine, and
two of the readings ask for them, each with a query of its own; a catalog has the rows in either
order.
-/

namespace DiskCatalog.Store

structure ItemRow where
  id : Int
  itype : Cell
  name : Option TextCell
  deriving DecidableEq, Repr

structure InfoRow where
  item : Cell
  name : Option TextCell
  changed : Option TextCell
  created : Option TextCell
  size : Cell
  deriving DecidableEq, Repr

structure LinkRow where
  item : Cell
  parent : Cell
  deriving DecidableEq, Repr

structure VolumeRow where
  item : Cell
  label : Option TextCell
  root : Option TextCell
  deriving DecidableEq, Repr

structure Column where
  name : String
  type : String
  notNull : Bool
  primaryKey : Bool
  deriving DecidableEq, Repr

/-- A table with its columns and the number of its rows. -/
structure Table where
  name : String
  columns : List Column
  rows : Nat
  deriving DecidableEq, Repr

def Column.toValue (c : Column) : Value :=
  .object [("name", .text c.name), ("type", .text c.type), ("notnull", .bool c.notNull),
    ("pk", .bool c.primaryKey)]

def Table.toValue (t : Table) : Value :=
  .object [("table", .text t.name), ("columns", .list (t.columns.map Column.toValue)),
    ("rows", .int t.rows)]

structure Catalog where
  /-- Every table, in the order of the names. -/
  tables : List Table
  items : List ItemRow
  /-- What is known about files, as the enumeration of the items meets it. -/
  infos : List InfoRow
  /-- The same rows as the reading of the names meets them. -/
  namings : List InfoRow := infos
  sameRows : namings.Perm infos := by exact List.Perm.refl _
  links : List LinkRow
  volumes : List VolumeRow
  deriving DecidableEq, Repr

def itemTable : String := "w3_items"
def infoTable : String := "w3_fileInfo"
def linkTable : String := "w3_decent"
def volumeTable : String := "w3_volumeInfo"

/-- The tables that a catalog has to have, in the order in which they are reported missing. -/
def requiredTables : List String :=
  [itemTable, infoTable, linkTable, volumeTable]

namespace Catalog

def empty : Catalog where
  tables := []
  items := []
  infos := []
  links := []
  volumes := []

def plainColumn (name type : String) : Column :=
  ⟨name, type, false, false⟩

def itemColumns : List Column :=
  [⟨"id", "INTEGER", false, true⟩, plainColumn "itype" "INTEGER", plainColumn "name" "TEXT"]

def infoColumns : List Column :=
  [plainColumn "id_item" "INTEGER", plainColumn "name" "TEXT", plainColumn "date_change" "TEXT",
   plainColumn "date_create" "TEXT", plainColumn "size" "INTEGER"]

def linkColumns : List Column :=
  [plainColumn "id_item" "INTEGER", plainColumn "id_parent" "INTEGER"]

def volumeColumns : List Column :=
  [plainColumn "id_item" "INTEGER", plainColumn "volume_label" "TEXT",
   plainColumn "root_path" "TEXT"]

/-- The catalog of some rows, where those about one item are met as they were stored. -/
def ofRows (items : List ItemRow) (infos : List InfoRow) (links : List LinkRow)
    (volumes : List VolumeRow) : Catalog where
  tables :=
    [⟨linkTable, linkColumns, links.length⟩, ⟨infoTable, infoColumns, infos.length⟩,
     ⟨itemTable, itemColumns, items.length⟩, ⟨volumeTable, volumeColumns, volumes.length⟩]
  items := items.mergeSort (·.id ≤ ·.id)
  infos := infos
  links := links
  volumes := volumes

def without (c : Catalog) (names : List String) : Catalog :=
  { c with tables := c.tables.filter fun t => !names.contains t.name }

/-- The type of a column as it is listed: the plain types are in capitals. -/
def listedType (type : String) : String :=
  let capitals := type.map Text.raiseAscii
  if ["ANY", "BLOB", "INT", "INTEGER", "REAL", "TEXT"].contains capitals then capitals else type

/-- A database with tables of which only the columns and the numbers of rows are known. -/
def ofTables (tables : List Table) : Catalog :=
  { empty with
    tables := (tables.map fun t =>
      { t with columns := t.columns.map fun c => { c with type := listedType c.type } }).mergeSort
        (fun a b => a.name ≤ b.name) }

def missingTables (c : Catalog) : List String :=
  requiredTables.filter fun name => !c.tables.any (·.name == name)

end Catalog

inductive Content where
  | database (catalog : Catalog)
  | other
  deriving DecidableEq, Repr

/-- What a file holds in which the tables of a catalog were made; without any it stays empty. -/
def Content.ofCatalog (c : Catalog) : Content :=
  if c.tables.isEmpty then .other else .database c

/-- A file, with the time of its last change in nanoseconds since 1970. -/
structure File where
  modified : Int
  size : Nat
  content : Content
  deriving DecidableEq, Repr

inductive Target where
  | file (file : File)
  | directory
  | fault (fault : PathFault)
  deriving DecidableEq, Repr

abbrev Disk := String → Target

/-- The mark by which a change of a file is noticed. -/
structure Signature where
  modified : Int
  size : Nat
  deriving DecidableEq, Repr

namespace Signature

def seconds (s : Signature) : Binary64 :=
  (Binary64.ofInt s.modified).divNat 1000000000

end Signature

/-- The size that a directory is taken to have. -/
def directorySize : Nat := 4096

def readSignature (path : String) (target : Target) : Except Failure Signature :=
  match target with
  | .file f => .ok ⟨f.modified, f.size⟩
  | .directory => .ok ⟨0, directorySize⟩
  | .fault fault => .error (.unreachable path fault)

/-- Opens the database that a path leads to.  An empty file is a database without tables. -/
def openDatabase (path : String) (target : Target) : Except Failure Catalog :=
  match target with
  | .file f =>
    if f.size = 0 then .ok .empty
    else match f.content with
      | .database c => .ok c
      | .other => .error (.noDatabase path)
  | _ => .error (.noFile path)

/-- Opens a catalog: a database with all the tables that a catalog has to have. -/
def openCatalog (path : String) (target : Target) : Except Failure Catalog := do
  let c ← openDatabase path target
  match c.missingTables with
  | [] => .ok c
  | missing => .error (.missingTables path missing)

end DiskCatalog.Store
