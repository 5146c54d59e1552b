import DiskCatalog.Calendar.Normal
import DiskCatalog.Index.Ancestry
import DiskCatalog.Index.Entry
import DiskCatalog.Index.FolderSize

/-!
# Building an index

A build looks at the catalog six times: once for its signature, once to open it, and once for each
of the four readings.  `Sightings` is what it sees; the file may change in between, and the build
makes its index of whatever it saw.  `build` is the build of a file that stays as it is.
-/

namespace DiskCatalog.Index

open Store Pattern

structure Options where
  excludes : List (Option String)
  minSize : Int
  maxDepth : Int
  deriving DecidableEq, Repr

structure Report where
  candidates : Nat
  excludedByDirectory : Nat
  rejected : List String
  deriving DecidableEq, Repr

structure Generation where
  path : String
  signature : Signature
  statistics : Statistics
  report : Report
  /-- The entries, by id. -/
  entries : List Entry
  deriving DecidableEq, Repr

/-- What a build sees of its catalog, in the order in which it looks. -/
structure Sightings where
  signature : Target
  opening : Target
  candidates : Target
  links : Target
  names : Target
  volumes : Target

def Sightings.still (target : Target) : Sightings :=
  ⟨target, target, target, target, target, target⟩

/-- A result together with what was logged on the way. -/
structure Outcome (α : Type) where
  result : Except Failure α
  logs : List Log.Record

/-- What an open catalog shows for a reading of some tables: a file that has gone keeps showing
what was seen last. -/
def seenThrough (last : Catalog) (tables : List String) (target : Target) :
    Except Failure Catalog := do
  let seen ← match target with
    | .file f =>
      if f.size = 0 then .ok .empty
      else match f.content with
        | .database c => .ok c
        | .other => .error (.query .notADatabase)
    | _ => .ok last
  match tables.filter seen.missingTables.contains with
  | [] => .ok seen
  | missing :: _ => .error (.query (.noSuchTable missing))

structure Readings where
  candidates : List Candidate
  links : Catalog.ParentLinks
  names : Catalog.ItemNames
  volumes : Catalog.Volumes

def Readings.of (path : String) (exclusion : Exclusion) (minSize : Int) (s : Sightings) :
    Except Failure Readings := do
  let opened ← openCatalog path s.opening
  let seen ← seenThrough opened [itemTable, infoTable] s.candidates
  let candidates ← seen.candidates exclusion minSize
  let seen ← seenThrough seen [linkTable] s.links
  let links ← seen.parentLinks
  let seen ← seenThrough seen [itemTable, infoTable] s.names
  let names ← seen.itemNames
  let seen ← seenThrough seen [volumeTable] s.volumes
  let volumes ← seen.volumeTable
  .ok { candidates, links, names, volumes }

namespace Readings

/-- An item is a volume when the catalog says so in either place. -/
def isVolume (r : Readings) (item : Int) : Bool :=
  r.volumes.contains item ||
    (r.names.get? item).any fun named => named.type == ItemKind.volume.number

def graph (r : Readings) : ItemGraph where
  parents := r.links
  name? item := (r.names.get? item).map (·.name)
  isVolume := r.isVolume

def entryOf (r : Readings) (c : Candidate) (ancestry : Ancestry) : Except Failure Entry := do
  let volume := ancestry.volume.bind r.volumes.get?
  let kind := if ancestry.volume = some c.id then .volume else c.kind
  let modified ← Calendar.normalDate c.changed
  let created ← Calendar.normalDate c.created
  let fullPath ← ancestry.fullPath
  .ok {
    id := c.id
    name := c.displayName
    kind
    size := if kind = .file then c.size else none
    modified
    created
    fullPath
    volumeLabel := volume.bind (·.label)
    volumeRoot := volume.bind (·.root) }

/-- The entries of all candidates, before anything is excluded by its directory. -/
def entries (r : Readings) (maxDepth : Int) : Except Failure (List Entry) :=
  let ancestries := r.graph.resolveAll maxDepth (r.candidates.map (·.id))
  (r.candidates.zip ancestries).mapM fun (c, ancestry) => r.entryOf c ancestry

end Readings

/-- Checks that the sizes of entries can be stored. -/
def storeEntries (entries : List Entry) : Except Failure (List Entry) :=
  if entries.all fun e => e.size.all isStorable then .ok entries
  else .error .beyondStoredInteger

def outside (condition : Condition) : List Entry → Except QueryFault (List Entry)
  | [] => .ok []
  | e :: es => do
    let inside ← if e.fullPath.isNone then .ok false else condition.check e.fullPath
    let rest ← outside condition es
    .ok (if inside then rest else e :: rest)

/-- The height of the condition by which directories are excluded. -/
def directoryDepth (exclusion : Exclusion) : Nat :=
  if exclusion.directories.isEmpty then 0 else exclusion.directoryCondition.depth + 1

def dropDirectories (exclusion : Exclusion) (entries : List Entry) :
    Except Failure (List Entry) :=
  if exclusion.directories.isEmpty then .ok entries
  else if Pattern.maxDepth < directoryDepth exclusion then .error (.query .expressionTooDeep)
  else (outside exclusion.directoryCondition entries).mapError .query

def folderSizes (links : Catalog.ParentLinks) (entries : List Entry) : FolderSize.Sizes :=
  FolderSize.total links
    ((entries.filter (·.kind = .file)).map fun e => (e.id, e.size))
    ((entries.filter (·.kind = .folder)).map (·.id))

def withFolderSizes (links : Catalog.ParentLinks) (entries : List Entry) :
    Except Failure (List Entry) :=
  let sizes := folderSizes links entries
  storeEntries (entries.map fun e =>
    if e.kind = .folder then { e with size := some (sizes.getD e.id 0) } else e)

def assemble (path : String) (signature : Signature) (exclusion : Exclusion) (maxDepth : Int)
    (r : Readings) : Except Failure Generation := do
  let resolved ← r.entries maxDepth
  let stored ← storeEntries resolved
  let kept ← dropDirectories exclusion stored
  let entries ← withFolderSizes r.links kept
  let statistics ← (Statistics.ofEntries entries).mapError .query
  .ok {
    path
    signature
    statistics
    report := ⟨r.candidates.length, stored.length - kept.length, exclusion.rejected⟩
    entries }

/-- Reads the catalog and makes an index of it. -/
def readAndAssemble (path : String) (signature : Signature) (exclusion : Exclusion)
    (options : Options) (s : Sightings) : Except Failure Generation := do
  let readings ← Readings.of path exclusion options.minSize s
  assemble path signature exclusion options.maxDepth readings

/-- Builds the index of a catalog as it is seen.  A fault of the query engine is reported and
becomes a failed build; other failures are passed on as they are. -/
def buildSeen (path : String) (options : Options) (s : Sightings) : Outcome Generation :=
  match readSignature path s.signature with
  | .error failure => ⟨.error failure, []⟩
  | .ok signature =>
    let exclusion := Exclusion.compile options.excludes
    match readAndAssemble path signature exclusion options s with
    | .error (.query fault) =>
      ⟨.error (.indexBuild path fault), exclusion.reports ++ [Log.failure "Index build failed"]⟩
    | result => ⟨result, exclusion.reports⟩

/-- Builds the index of a catalog that stays as it is. -/
def build (path : String) (options : Options) (target : Target) : Outcome Generation :=
  buildSeen path options (.still target)

end DiskCatalog.Index
