import DiskCatalog.Store.Catalog

/-!
# Storing rows

A row of values becomes a row of cells, each as its column keeps it.  An item without a whole number
for its id is stored under the next free one.
-/

namespace DiskCatalog.Store

/-- The id under which an item is stored when `next` is the next free one. -/
def storedId (next : Int) (id : Cell) : Int :=
  match id.asInteger with
  | .int n => n
  | _ => next

/-- The items of some rows, in the order in which they are stored. -/
def storeItems (next : Int) : List (List Cell) → List ItemRow
  | [] => []
  | [id, itype, name] :: rows =>
    let id := storedId next id
    ⟨id, itype.asInteger, name.asText⟩ :: storeItems (max next (id + 1)) rows
  | _ :: rows => storeItems next rows

def InfoRow.ofCells? : List Cell → Option InfoRow
  | [item, name, changed, created, size] =>
    some ⟨item.asInteger, name.asText, changed.asText, created.asText, size.asInteger⟩
  | _ => none

def LinkRow.ofCells? : List Cell → Option LinkRow
  | [item, parent] => some ⟨item.asInteger, parent.asInteger⟩
  | _ => none

def VolumeRow.ofCells? : List Cell → Option VolumeRow
  | [item, label, root] => some ⟨item.asInteger, label.asText, root.asText⟩
  | _ => none

namespace Catalog

/-- The catalog in which the rows of four tables are stored. -/
def ofCells (items infos links volumes : List (List Cell)) : Catalog :=
  .ofRows (storeItems 1 items) (infos.filterMap InfoRow.ofCells?)
    (links.filterMap LinkRow.ofCells?) (volumes.filterMap VolumeRow.ofCells?)

def storing (items infos links volumes : List (List Value)) : Catalog :=
  let cells (rows : List (List Value)) := rows.map fun row => row.map Cell.ofValue
  ofCells (cells items) (cells infos) (cells links) (cells volumes)

end Catalog

end DiskCatalog.Store
