import Std.Data.TreeMap.Basic
import DiskCatalog.Pattern.Exclusion
import DiskCatalog.Store.Catalog

/-!
# Reading a catalog

Four readings make up what the index is built from: the candidates, the links from items to their
parents, the names of the items and the volumes.  Each either reads all its rows or fails at the
first that cannot be read: a row is fetched first, which a broken text prevents, and then its
numbers are converted.
-/

namespace DiskCatalog.Store

open Pattern

inductive ItemKind where
  | file
  | folder
  | volume
  deriving DecidableEq, Repr

/-- The number that stands for the root of a catalog. -/
def rootType : Int := 150

namespace ItemKind

/-- The number that a catalog stores for a kind. -/
def number : ItemKind → Int
  | .file => 1
  | .folder => 200
  | .volume => 172

def ofNumber? (n : Int) : Option ItemKind :=
  if n = 1 then some .file
  else if n = 200 then some .folder
  else if n = 172 then some .volume
  else none

end ItemKind

/-- The kind of an item, if it is one that is indexed. -/
def ItemRow.kind? (row : ItemRow) : Option ItemKind :=
  match row.itype with
  | .int n => ItemKind.ofNumber? n
  | _ => none

/-- An item that may become an entry, with what is known about its file. -/
structure Candidate where
  id : Int
  name : TextCell
  kind : ItemKind
  fileName : Option TextCell
  size : Option Int
  changed : Option String
  created : Option String
  deriving DecidableEq, Repr

def filled (content : Option TextCell) : Option TextCell :=
  content.filter (!·.isEmpty)

/-- What a column tells as a text; an empty text tells nothing. -/
def told (content : Option TextCell) : Option String :=
  (content.map (·.shown)).filter (!·.isEmpty)

namespace Candidate

/-- The name that is shown: the name of the file where one is known, else the name of the item. -/
def displayName (c : Candidate) : TextCell :=
  c.fileName.getD c.name

end Candidate

structure Volume where
  label : Option TextCell
  root : Option TextCell
  deriving DecidableEq, Repr

/-- The columns that are fetched of a row, with the bytes of the texts that are broken. -/
abbrev Columns := List (String × Option (List UInt8))

/-- Fetches columns, up to the first broken text. -/
def fetch : Columns → Except Failure Unit
  | [] => .ok ()
  | (_, none) :: columns => fetch columns
  | (column, some bytes) :: _ => .error (.query (.undecodable column bytes))

/-- The bytes of a text column that holds a broken text. -/
def brokenText (content : Option TextCell) : Option (List UInt8) :=
  content.bind (·.broken?)

/-- A number that is wanted as a cell of an integer column. -/
def wanted (cell : Cell) : Except Failure Int :=
  cell.toInteger.mapError .number

/-- The number that a cell holds, if it holds anything. -/
def wanted? : Cell → Except Failure (Option Int)
  | .null => .ok none
  | cell => (wanted cell).map some

namespace Catalog

/-- The rows about an item; without any there is one empty match. -/
def rowsAbout (infos : List InfoRow) (item : ItemRow) : List (Option InfoRow) :=
  match infos.filter fun info => info.item.isInt item.id with
  | [] => [none]
  | infos => infos.map some

/-- Items, each with the rows about it. -/
def join (items : List ItemRow) (infos : List InfoRow) : List (ItemRow × Option InfoRow) :=
  items.flatMap fun item => (rowsAbout infos item).map (item, ·)

/-- The rows that the enumeration of the items meets. -/
def joinedRows (c : Catalog) : List (ItemRow × Option InfoRow) :=
  join c.items c.infos

/-- The rows that the reading of the names meets. -/
def namedRows (c : Catalog) : List (ItemRow × Option InfoRow) :=
  join c.items c.namings

/-- The name of a joined row: that of the file, else that of the item. -/
def rowName (item : ItemRow) (info : Option InfoRow) : Option TextCell :=
  (info.bind (·.name)).or item.name

def rowSize (info : Option InfoRow) : Cell :=
  info.elim .null (·.size)

def keeps (exclusion : Exclusion) (minSize : Int) (item : ItemRow) (info : Option InfoRow) :
    Except QueryFault Bool :=
  match item.kind? with
  | none => .ok false
  | some kind => do
    let named ←
      if exclusion.filenames.isEmpty then .ok true
      else exclusion.filenameCondition.check ((rowName item info).map (·.read))
    let large := kind != .file || (rowSize info).isAtLeast minSize
    .ok (named && (minSize ≤ 0 || large))

def fetchedForCandidate (item : ItemRow) (info : Option InfoRow) : Columns :=
  [("name", brokenText item.name), ("name", brokenText (info.bind (·.name))),
   ("size", (rowSize info).broken?), ("date_change", brokenText (info.bind (·.changed))),
   ("date_create", brokenText (info.bind (·.created)))]

def candidateOf (item : ItemRow) (kind : ItemKind) (info : Option InfoRow) :
    Except Failure Candidate := do
  let size ← wanted? (rowSize info)
  .ok {
    id := item.id
    name := item.name.getD ""
    kind
    fileName := filled (info.bind (·.name))
    size
    changed := told (info.bind (·.changed))
    created := told (info.bind (·.created)) }

/-- Enumerates rows; of several kept rows of one item the first counts.  `last` is the item of the
candidate before. -/
def enumerate (exclusion : Exclusion) (minSize : Int) (last : Option Int) :
    List (ItemRow × Option InfoRow) → Except Failure (List Candidate)
  | [] => .ok []
  | (item, info) :: rows => do
    let kept ← (keeps exclusion minSize item info).mapError .query
    match item.kind? with
    | none => enumerate exclusion minSize last rows
    | some kind =>
      if !kept then enumerate exclusion minSize last rows
      else
        fetch (fetchedForCandidate item info)
        if last == some item.id then enumerate exclusion minSize last rows
        else
          let candidate ← candidateOf item kind info
          let rest ← enumerate exclusion minSize (some item.id) rows
          .ok (candidate :: rest)

def conditionDepth (exclusion : Exclusion) (minSize : Int) : Nat :=
  if exclusion.filenames.isEmpty then 0
  else exclusion.filenameCondition.depth + (if 0 < minSize then 5 else 4)

/-- The files, folders and volumes whose names are not excluded, by id.  Where a positive least
size is wanted, smaller files are left out; a size that is not known counts as zero. -/
def candidates (c : Catalog) (exclusion : Exclusion) (minSize : Int) :
    Except Failure (List Candidate) :=
  if Pattern.maxDepth < conditionDepth exclusion minSize then .error (.query .expressionTooDeep)
  else if 0 < minSize ∧ !isStorable minSize then .error .beyondStoredInteger
  else enumerate exclusion minSize none c.joinedRows

/-- The items above each item, ascending; only links that lead to an item other than zero count. -/
abbrev ParentLinks := Std.TreeMap Int (List Int)

/-- Puts a number into an ascending list, unless it is there. -/
def insertAscending (n : Int) : List Int → List Int
  | [] => [n]
  | m :: ms => if n < m then n :: m :: ms else if n = m then m :: ms else m :: insertAscending n ms

def fetchedForLink (row : LinkRow) : Columns :=
  [("id_item", row.item.broken?), ("id_parent", row.parent.broken?)]

def addLink (links : ParentLinks) (row : LinkRow) : Except Failure ParentLinks := do
  fetch (fetchedForLink row)
  if row.item = .null then .ok links
  else
    let item ← wanted row.item
    let parent ← wanted? row.parent
    let known := links.getD item []
    .ok (links.insert item (match parent with
      | none => known
      | some p => if p = 0 then known else insertAscending p known))

def parentLinks (c : Catalog) : Except Failure ParentLinks :=
  c.links.foldlM addLink ∅

/-- The name and the type number of an item of any type. -/
structure NamedItem where
  name : TextCell
  type : Int
  deriving DecidableEq, Repr

abbrev ItemNames := Std.TreeMap Int NamedItem

def fetchedForName (row : ItemRow × Option InfoRow) : Columns :=
  [("COALESCE(f.name, i.name)", brokenText (rowName row.1 row.2)), ("itype", row.1.itype.broken?)]

/-- Adds the name of a joined row, unless the item has one already. -/
def addName (names : ItemNames) (row : ItemRow × Option InfoRow) : Except Failure ItemNames := do
  fetch (fetchedForName row)
  let type ← wanted row.1.itype
  .ok (names.insertIfNew row.1.id ⟨(filled (rowName row.1 row.2)).getD "", type⟩)

def itemNames (c : Catalog) : Except Failure ItemNames :=
  c.namedRows.foldlM addName ∅

abbrev Volumes := Std.TreeMap Int Volume

def fetchedForVolume (row : VolumeRow) : Columns :=
  [("id_item", row.item.broken?), ("volume_label", brokenText row.label),
   ("root_path", brokenText row.root)]

/-- Adds a volume, unless the item has one already. -/
def addVolume (volumes : Volumes) (row : VolumeRow) : Except Failure Volumes := do
  fetch (fetchedForVolume row)
  let item ← wanted row.item
  .ok (volumes.insertIfNew item ⟨filled row.label, filled row.root⟩)

def volumeTable (c : Catalog) : Except Failure Volumes :=
  c.volumes.foldlM addVolume ∅

end Catalog

end DiskCatalog.Store
