import DiskCatalog.Settings.Basic
import DiskCatalog.Value.Reading

/-!
# Settings by name

The settings under the names that files and reports give them.
-/

namespace DiskCatalog.Settings

def toFields (s : Settings) : List (String × Value) :=
  [("db_path", .text s.databasePath), ("exclude_patterns", .list (s.excludes.map .text)),
   ("min_file_size", .int s.minFileSize), ("nightly_refresh_hour", .int s.nightlyHour),
   ("max_ancestry_depth", .int s.maxDepth), ("debounce_secs", .float s.debounce),
   ("watch_enabled", .bool s.watch), ("watch_use_polling", .bool s.polling),
   ("host", .text s.host), ("port", .int s.port), ("log_level", .text s.logLevel),
   ("log_format", .text s.logFormat)]

/-- The settings with one of them changed, unless the value does not fit. -/
def withField (s : Settings) (name : String) (value : Value) : Settings :=
  let integer := fun old => value.toInteger.toOption.getD old
  let truth := fun old => value.toBool?.getD old
  match name with
  | "db_path" => { s with databasePath := value.shown }
  | "exclude_patterns" => { s with excludes := value.items.map Value.shown }
  | "min_file_size" => { s with minFileSize := integer s.minFileSize }
  | "nightly_refresh_hour" => { s with nightlyHour := integer s.nightlyHour }
  | "max_ancestry_depth" => { s with maxDepth := integer s.maxDepth }
  | "debounce_secs" => { s with debounce := value.toNumber.toOption.getD s.debounce }
  | "watch_enabled" => { s with watch := truth s.watch }
  | "watch_use_polling" => { s with polling := truth s.polling }
  | "host" => { s with host := value.shown }
  | "port" => { s with port := integer s.port }
  | "log_level" => { s with logLevel := value.shown }
  | "log_format" => { s with logFormat := value.shown }
  | _ => s

def withFields (s : Settings) (fields : List (String × Value)) : Settings :=
  fields.foldl (fun s field => s.withField field.1 field.2) s

end DiskCatalog.Settings
