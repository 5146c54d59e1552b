import DiskCatalog.Log.Record
import DiskCatalog.Pattern.Condition
import DiskCatalog.Text.Blank

/-!
# Exclusion patterns

In an exclusion pattern `*` stands for any run of characters.  Without a slash it excludes names;
with a slash, or a slash and a star, at its end it excludes what lies in a directory.  A slash
anywhere else makes the pattern invalid: it is reported and has no effect.
-/

namespace DiskCatalog.Pattern

open Text

namespace Glob

def patternChar (c : Char) : List Char :=
  if c = '*' then ['%'] else if c = '.' then ['\\', '.'] else escapeChar c

def toPattern (glob : String) : String :=
  String.ofList (glob.toList.flatMap patternChar)

end Glob

/-- What an exclusion pattern is, once the blanks around it are gone. -/
inductive ExclusionKind where
  | blank
  | filename (glob : String)
  | directory (glob : String)
  | invalid (pattern : String)
  deriving DecidableEq, Repr

/-- Sorts a pattern by where its first slash stands. -/
def ExclusionKind.ofText (text : String) : ExclusionKind :=
  let s := trim text.toList
  if s = [] then .blank
  else match s.idxOf? '/' with
    | none => .filename (String.ofList s)
    | some i =>
      if i = s.length - 1 ∧ 1 < s.length then .directory (String.ofList s.dropLast)
      else if i + 2 = s.length ∧ s.getLast? = some '*' ∧ 2 < s.length then
        .directory (String.ofList (s.dropLast.dropLast))
      else .invalid (String.ofList s)

/-- Exclusion patterns, sorted by what they are matched against. -/
structure Exclusion where
  filenames : List String
  directories : List String
  rejected : List String
  deriving DecidableEq, Repr

namespace Exclusion

def empty : Exclusion := ⟨[], [], []⟩

def isEmpty (e : Exclusion) : Bool :=
  e.filenames.isEmpty && e.directories.isEmpty

def ofKinds (kinds : List ExclusionKind) : Exclusion where
  filenames := kinds.filterMap fun | .filename glob => some glob | _ => none
  directories := kinds.filterMap fun | .directory glob => some glob | _ => none
  rejected := kinds.filterMap fun | .invalid pattern => some pattern | _ => none

/-- Sorts patterns; a missing one counts as blank. -/
def compile (patterns : List (Option String)) : Exclusion :=
  ofKinds (patterns.map fun p => ExclusionKind.ofText (p.getD ""))

def rejection (pattern : String) : Log.Record :=
  Log.error ("Invalid exclude pattern \"" ++ pattern ++
    "\": slash (/) is only allowed at the end (e.g., \"dirName/\" or \"dirName/*\"). " ++
    "Pattern ignored.")

def reports (e : Exclusion) : List Log.Record :=
  e.rejected.map rejection

/-- The condition that a name matches none of the filename patterns. -/
def filenameCondition (e : Exclusion) : Condition :=
  .all (e.filenames.map fun glob => ⟨true, Glob.toPattern glob⟩)

/-- The patterns of the paths that are a directory, start or end with it or pass through it. -/
def directoryPatterns (glob : String) : List String :=
  let pattern := Glob.toPattern glob
  [pattern, pattern ++ "/%", "%/" ++ pattern, "%/" ++ pattern ++ "/%"]

/-- The condition that a path lies in one of the directories. -/
def directoryCondition (e : Exclusion) : Condition :=
  .some (e.directories.map fun glob => (directoryPatterns glob).map fun p => ⟨false, p⟩)

end Exclusion

end DiskCatalog.Pattern
