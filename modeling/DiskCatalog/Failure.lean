import DiskCatalog.Text.Bytes
import DiskCatalog.Text.Digit
import DiskCatalog.Text.Quoted

/-!
# What can go wrong

`Failure` lists the causes; `Failure.message` words them and `Failure.kind` names the family that a
log record files them under.  A failure of the catalog itself, as opposed to one of a value inside
it or of a request, satisfies `Failure.isCatalogFault`: a running search survives those.
-/

namespace DiskCatalog

inductive FailureKind where
  | sourceUnavailable
  | indexBuild
  | indexNotReady
  | noItems
  | configuration
  | value
  | type
  | overflow
  | fileNotFound
  | notADirectory
  | operatingSystem
  | operational
  | programming
  | runtime
  | key
  deriving DecidableEq, Repr

namespace FailureKind

def name : FailureKind → String
  | .sourceUnavailable => "SourceUnavailableError"
  | .indexBuild => "IndexBuildError"
  | .indexNotReady => "IndexNotReadyError"
  | .noItems => "NoItemsError"
  | .configuration => "ConfigurationError"
  | .value => "ValueError"
  | .type => "TypeError"
  | .overflow => "OverflowError"
  | .fileNotFound => "FileNotFoundError"
  | .notADirectory => "NotADirectoryError"
  | .operatingSystem => "OSError"
  | .operational => "OperationalError"
  | .programming => "ProgrammingError"
  | .runtime => "RuntimeError"
  | .key => "KeyError"

def all : List FailureKind :=
  [.sourceUnavailable, .indexBuild, .indexNotReady, .noItems, .configuration, .value, .type,
   .overflow, .fileNotFound, .notADirectory, .operatingSystem, .operational, .programming,
   .runtime, .key]

def ofName? (name : String) : Option FailureKind :=
  all.find? fun kind => kind.name == name

def isCatalogFault : FailureKind → Bool
  | .sourceUnavailable | .indexBuild | .indexNotReady | .noItems | .configuration => true
  | _ => false

/-- The name together with the place where the family is defined. -/
def fullName (kind : FailureKind) : String :=
  if kind.isCatalogFault then "catalog_search.logger." ++ kind.name
  else match kind with
    | .operational | .programming => "sqlite3." ++ kind.name
    | _ => kind.name

def isFileFault : FailureKind → Bool
  | .fileNotFound | .notADirectory | .operatingSystem => true
  | _ => false

end FailureKind

inductive PathFault where
  | missing
  | notADirectory
  deriving DecidableEq, Repr

/-- The text of the operating system about a path. -/
def PathFault.message (fault : PathFault) (path : String) : String :=
  match fault with
  | .missing => "[Errno 2] No such file or directory: " ++ Text.quoted path
  | .notADirectory => "[Errno 20] Not a directory: " ++ Text.quoted path

inductive QueryFault where
  | patternTooComplex
  | expressionTooDeep
  | sumOverflow
  /-- The file has become something else since it was opened. -/
  | notADatabase
  | noSuchTable (name : String)
  /-- A text in a column is not UTF-8. -/
  | undecodable (column : String) (bytes : List UInt8)
  deriving DecidableEq, Repr

def QueryFault.message : QueryFault → String
  | .patternTooComplex => "LIKE or GLOB pattern too complex"
  | .expressionTooDeep => "Expression tree is too large (maximum depth 1000)"
  | .sumOverflow => "integer overflow"
  | .notADatabase => "file is not a database"
  | .noSuchTable name => "no such table: " ++ name
  | .undecodable column bytes =>
    let text := Text.asciiChars (bytes.takeWhile (· ≠ 0))
    let message := "Could not decode to UTF-8 column '" ++ column ++ "' with text '" ++
      String.ofList text ++ "'"
    String.ofList (message.toList.take 198)

/-- Why a value is no number of the wanted kind. -/
inductive NumberFault where
  | notAnInteger (text : String)
  | notAnIntegerBytes (bytes : List UInt8)
  | tooManyDigits (digits : Nat)
  | noIntegerKind (kindName : String)
  | infiniteInteger
  | undefinedInteger
  | notANumber (text : String)
  | notANumberBytes (bytes : List UInt8)
  | noNumberKind (kindName : String)
  | beyondBinary64
  deriving DecidableEq, Repr

def NumberFault.message : NumberFault → String
  | .notAnInteger text =>
    "invalid literal for int() with base 10: " ++ Text.shortened (Text.quoted text)
  | .notAnIntegerBytes bytes =>
    "invalid literal for int() with base 10: " ++
      Text.shortened (Text.quotedBytes (bytes.take 200))
  | .tooManyDigits digits =>
    "Exceeds the limit (4300 digits) for integer string conversion: value has " ++
      String.ofList (Text.decimal digits) ++
      " digits; use sys.set_int_max_str_digits() to increase the limit"
  | .noIntegerKind kindName =>
    "int() argument must be a string, a bytes-like object or a real number, not '" ++
      kindName ++ "'"
  | .infiniteInteger => "cannot convert float infinity to integer"
  | .undefinedInteger => "cannot convert float NaN to integer"
  | .notANumber text => "could not convert string to float: " ++ Text.quoted text
  | .notANumberBytes bytes => "could not convert string to float: " ++ Text.quotedBytes bytes
  | .noNumberKind kindName =>
    "float() argument must be a string or a real number, not '" ++ kindName ++ "'"
  | .beyondBinary64 => "int too large to convert to float"

def NumberFault.kind : NumberFault → FailureKind
  | .notAnInteger _ | .notAnIntegerBytes _ | .tooManyDigits _ | .undefinedInteger
  | .notANumber _ | .notANumberBytes _ => .value
  | .noIntegerKind _ | .noNumberKind _ => .type
  | .infiniteInteger | .beyondBinary64 => .overflow

inductive Failure where
  | unreachable (path : String) (fault : PathFault)
  | noFile (path : String)
  | noDatabase (path : String)
  | missingTables (path : String) (tables : List String)
  | catalogNotOpen
  | indexBuild (path : String) (cause : QueryFault)
  | indexNotBuilt
  /-- A reader came to a generation that is closed. -/
  | generationClosed
  | noItems
  | configuration (problems : List String)
  | number (fault : NumberFault)
  /-- A path was to be made of names of which one, in this place, is no text but bytes. -/
  | bytesInPath (place : Nat)
  /-- A path was to be put below a root that is no text but bytes. -/
  | bytesAsRoot
  /-- A row has another number of columns than a search row. -/
  | rowWidth (columns : Nat)
  /-- An integer does not fit the 64 bits of a stored integer. -/
  | beyondStoredInteger
  /-- An instant lies outside the years 1 to 9999. -/
  | beyondCalendar
  | query (fault : QueryFault)
  | databaseClosed
  | file (path : String) (fault : PathFault)
  | notifications (text : String)
  /-- A failure raised outside, with its text. -/
  | other (kind : FailureKind) (text : String)
  deriving DecidableEq, Repr

namespace Failure

def rowColumns : Nat := 9

def message : Failure → String
  | .unreachable path fault => "Cannot stat catalog " ++ path ++ ": " ++ fault.message path
  | .noFile path => "Catalog file not found: " ++ path
  | .noDatabase path => "Catalog " ++ path ++ " is not readable: file is not a database"
  | .missingTables path tables =>
    "Catalog " ++ path ++ " is missing tables: " ++ ", ".intercalate tables
  | .catalogNotOpen => "Source catalog is not open"
  | .indexBuild path cause =>
    "Failed to build search index from " ++ path ++ ": " ++ cause.message
  | .indexNotBuilt => "Search index has not been built yet"
  | .generationClosed => "Index generation has been closed"
  | .noItems => "No items in the database"
  | .configuration problems => "; ".intercalate problems
  | .number fault => fault.message
  | .bytesInPath place =>
    "sequence item " ++ String.ofList (Text.decimal place) ++ ": expected str instance, bytes found"
  | .bytesAsRoot => "endswith first arg must be bytes or a tuple of bytes, not str"
  | .rowWidth columns =>
    if columns < rowColumns then
      "not enough values to unpack (expected 9, got " ++
        String.ofList (Text.decimal columns) ++ ")"
    else "too many values to unpack (expected 9)"
  | .beyondStoredInteger => "Python int too large to convert to SQLite INTEGER"
  | .beyondCalendar => "date value out of range"
  | .query fault => fault.message
  | .databaseClosed => "Cannot operate on a closed database."
  | .file path fault => fault.message path
  | .notifications text => text
  | .other _ text => text

def kind : Failure → FailureKind
  | .unreachable .. | .noFile _ | .noDatabase _ | .missingTables .. | .catalogNotOpen =>
    .sourceUnavailable
  | .indexBuild .. => .indexBuild
  | .indexNotBuilt | .generationClosed => .indexNotReady
  | .noItems => .noItems
  | .configuration _ => .configuration
  | .number fault => fault.kind
  | .bytesInPath _ | .bytesAsRoot => .type
  | .rowWidth _ => .value
  | .beyondStoredInteger | .beyondCalendar => .overflow
  | .query _ => .operational
  | .databaseClosed => .programming
  | .file _ .missing => .fileNotFound
  | .file _ .notADirectory => .notADirectory
  | .notifications _ => .operatingSystem
  | .other kind _ => kind

/-- Failures of the catalog search itself, which a refresh in the background survives. -/
def isCatalogFault (failure : Failure) : Bool :=
  failure.kind.isCatalogFault

end Failure

end DiskCatalog
