import DiskCatalog.Calendar.Timestamp
import DiskCatalog.Index.Build

/-!
# Status of a catalog

The size and the time of the catalog file, and the statistics of the index that is searched.
-/

namespace DiskCatalog.Search

open Store Index

structure Status where
  path : String
  fileSize : Nat
  lastModified : String
  lastLoaded : Option String
  statistics : Statistics
  deriving Repr

/-- The size of a file and the date of its last change. -/
def fileFacts (path : String) (target : Target) : Except Failure (Nat × String) := do
  match target with
  | .fault fault => .error (.file path fault)
  | .file f => .ok (f.size, ← Calendar.fileDate f.modified)
  | .directory => .ok (directorySize, ← Calendar.fileDate 0)

namespace Status

def toFields (s : Status) : List (String × Value) :=
  [("connected", .bool true), ("path", .text s.path), ("fileSizeBytes", .int s.fileSize),
   ("lastModifiedISO", .text s.lastModified), ("lastLoadedISO", .ofText? s.lastLoaded),
   ("statistics", .object [
      ("totalItems", .int s.statistics.items), ("totalFiles", .int s.statistics.files),
      ("totalFolders", .int s.statistics.folders), ("totalVolumes", .int s.statistics.volumes),
      ("totalSizeBytes", .int s.statistics.sizeBytes)])]

end Status

end DiskCatalog.Search
