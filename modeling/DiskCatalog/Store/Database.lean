import DiskCatalog.Store.Insertion
import DiskCatalog.Store.Pages
import DiskCatalog.Store.Walk

/-!
# Database files

The first page of a database lists its tables, each with the page of its tree and its definition,
and the indexes of these.  `Content.ofBytes` is what a catalog holds whose file has some bytes.
-/

namespace DiskCatalog.Store

/-- A table with its rows as they are stored. -/
structure StoredTable where
  name : String
  definition : Definition
  rows : List StoredRow

namespace StoredTable

/-- The table that a row of the list of tables tells of. -/
def ofRow? (p : Pages) (row : StoredRow) : Option StoredTable :=
  match recordCells row.record with
  | .text "table" :: .text name :: _ :: .int root :: .text text :: _ =>
    some ⟨name, .read text, p.rows root.toNat⟩
  | _ => none

/-- The cell of a row in the column with a name. -/
def cellOf (t : StoredTable) (row : StoredRow) (cells : List Cell) (name : String) : Cell :=
  match t.definition.columns.findIdx? fun c => isSameName c.name name with
  | none => .null
  | some i => if t.definition.numbered = some i then .int row.id else cells.getD i .null

/-- The cells of all rows in the columns with some names. -/
def cellsOf (t : StoredTable) (names : List String) : List (List Cell) :=
  t.rows.map fun row =>
    let cells := recordCells row.record
    names.map (t.cellOf row cells)

def toTable (t : StoredTable) : Table where
  name := t.name
  columns := t.definition.columns
  rows := t.rows.length

end StoredTable

def listPage : Nat := 1

def Pages.tables (p : Pages) : List StoredTable :=
  (p.rows listPage).filterMap (StoredTable.ofRow? p)

/-- The index that a row of the list of tables tells of. -/
def TableIndex.ofRow? (row : StoredRow) : Option TableIndex :=
  match recordCells row.record with
  | .text "index" :: _ :: .text table :: _ :: .text text :: _ => TableIndex.read? table text
  | _ => none

def Pages.indexes (p : Pages) : List TableIndex :=
  (p.rows listPage).filterMap TableIndex.ofRow?

/-- The cells of a table in some columns; a table that is not there has none. -/
def cellsIn (tables : List StoredTable) (name : String) (columns : List Column) :
    List (List Cell) :=
  (tables.find? (·.name == name)).elim [] (·.cellsOf (columns.map (·.name)))

def Catalog.ofStored (tables : List StoredTable) (indexes : List TableIndex) : Catalog :=
  let catalog := Catalog.ofCells
    (cellsIn tables itemTable itemColumns) (cellsIn tables infoTable infoColumns)
    (cellsIn tables linkTable linkColumns) (cellsIn tables Store.volumeTable volumeColumns)
  { catalog.walked indexes with tables := (Catalog.ofTables (tables.map (·.toTable))).tables }

def Content.ofBytes (bytes : ByteArray) : Content :=
  match Pages.ofBytes? bytes with
  | some p => .database (.ofStored p.tables p.indexes)
  | none => .other

end DiskCatalog.Store
