import DiskCatalog.Store.Definition

/-!
# The order of rows

The rows about one item are met in the order in which the query engine walks them.  It walks an
index of the table that begins with the item, if there is one; without any it makes one of its own,
of the columns that the query asks for.  Only the enumeration of the items looks at their types
first, and where these have an index, it walks the rows about an item as they were stored.
-/

namespace DiskCatalog.Store

/-! ## Cells in order -/

namespace Cell

/-- Nothing stands before numbers, numbers before texts, and texts before bytes. -/
def rank : Cell → Nat
  | .null => 0
  | .int _ | .real _ => 1
  | .text _ | .broken _ => 2
  | .blob _ => 3

/-- The value of a number, behind a mark that tells the infinite ones. -/
def magnitude : Cell → Int × Rat
  | .int n => (0, n)
  | .real (.infinite negative) => (if negative then -1 else 1, 0)
  | .real x => (0, x.toRat?.getD 0)
  | _ => (0, 0)

def bytes : Cell → List UInt8
  | .text s => s.toUTF8.toList
  | .blob bytes | .broken bytes => bytes
  | _ => []

def order (a b : Cell) : Ordering :=
  (compare a.rank b.rank).then <| (compare a.magnitude.1 b.magnitude.1).then <|
    (compareOfLessAndEq a.magnitude.2 b.magnitude.2).then <| compareOfLessAndEq a.bytes b.bytes

end Cell

def TextCell.toCell : TextCell → Cell
  | .text s => .text s
  | .blob bytes => .blob bytes
  | .broken bytes => .broken bytes

/-! ## Indexes -/

structure IndexColumn where
  name : String
  descends : Bool := false
  deriving DecidableEq, Repr

structure TableIndex where
  table : String
  columns : List IndexColumn
  deriving DecidableEq, Repr

namespace TableIndex

/-- The column of a part of a definition.  One that is computed, or compared in a way of its own,
has no name. -/
def columnOf (part : List Piece) : IndexColumn :=
  match part with
  | [name] => { name := name.text }
  | [name, direction] =>
    if direction.isKeyword "DESC" then { name := name.text, descends := true }
    else if direction.isKeyword "ASC" then { name := name.text }
    else { name := "" }
  | _ => { name := "" }

/-- The index that a definition makes; one of some rows only is of no use. -/
def read? (table text : String) : Option TableIndex :=
  let pieces := Piece.readAll text.length text.toList
  if (Piece.outside 0 pieces).any (·.isKeyword "WHERE") then none
  else some ⟨table, (Piece.parts 0 (Piece.inside 0 pieces)).map columnOf⟩

def covers (index : TableIndex) (names : List String) : Bool :=
  names.all fun name => index.columns.any fun column => isSameName column.name name

/-- Whether an index of a table begins with a column. -/
def leads (index : TableIndex) (table column : String) : Bool :=
  isSameName index.table table && index.columns.head?.any (isSameName ·.name column)

end TableIndex

/-! ## Walks -/

namespace InfoRow

/-- The cell in the column with a name. -/
def cell (row : InfoRow) (name : String) : Cell :=
  let text (content : Option TextCell) := content.elim Cell.null TextCell.toCell
  if isSameName name "id_item" then row.item
  else if isSameName name "name" then text row.name
  else if isSameName name "date_change" then text row.changed
  else if isSameName name "date_create" then text row.created
  else if isSameName name "size" then row.size
  else .null

/-- Whether a row stands before another or with it in an index of some columns. -/
def precedes (columns : List IndexColumn) (a b : InfoRow) : Bool :=
  let order := columns.foldl (fun (order : Ordering) column =>
    let here := (a.cell column.name).order (b.cell column.name)
    order.then (if column.descends then here.swap else here)) Ordering.eq
  order != Ordering.gt

end InfoRow

namespace Catalog

/-- The index of the table of files that a query walks which asks for some columns: the latest one,
but sooner one that has them all. -/
def walkedIndex (indexes : List TableIndex) (names : List String) : Option (List IndexColumn) :=
  let usable := (indexes.filter (·.leads infoTable "id_item")).reverse
  ((usable.find? (·.covers names)).or usable.head?).map (·.columns)

/-- The columns about a file that the enumeration of the items asks for, as the table has them. -/
def enumeratedColumns : List String :=
  ["name", "date_change", "date_create", "size"]

/-- The columns in the order of which the enumeration of the items meets the rows about one item. -/
def enumerationOrder (indexes : List TableIndex) : List IndexColumn :=
  match walkedIndex indexes enumeratedColumns with
  | some columns => columns
  | none =>
    if indexes.any (·.leads itemTable "itype") then []
    else enumeratedColumns.map fun name => { name }

/-- The columns in the order of which the reading of the names meets the rows about one item. -/
def namingOrder (indexes : List TableIndex) : List IndexColumn :=
  (walkedIndex indexes ["name"]).getD [{ name := "name" }]

/-- The catalog whose rows about one item are met in the order that some indexes give. -/
def walked (c : Catalog) (indexes : List TableIndex) : Catalog :=
  { c with
    infos := c.infos.mergeSort (InfoRow.precedes (enumerationOrder indexes))
    namings := c.infos.mergeSort (InfoRow.precedes (namingOrder indexes))
    sameRows := (List.mergeSort_perm ..).trans (List.mergeSort_perm ..).symm }

end Catalog

end DiskCatalog.Store
