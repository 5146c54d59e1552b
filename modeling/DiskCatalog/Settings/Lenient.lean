import DiskCatalog.Log.Record
import DiskCatalog.Value.Number

/-!
# Lenient readings

A setting that is missing or blank has its default.  One that cannot be read has it as well, and a
warning says so.  Only an integer that is too large for a number is refused.
-/

namespace DiskCatalog.Settings

/-- A way to read settings: the word that warnings have for it, the reading, and the text of a
default. -/
structure Form (α : Type) where
  word : String
  read : Value → Except Failure α
  shown : α → String

namespace Form

def integer : Form Int where
  word := "integer value"
  read v := v.toInteger.mapError .number
  shown := Text.ofInt

def number : Form Binary64 where
  word := "number"
  read v := v.toNumber.mapError .number
  shown := Binary64.toText

def truth : Form Bool where
  word := "boolean"
  read v :=
    match v.toBool? with
    | some b => .ok b
    | none => .error (.other .value v.shown)
  shown b := (Value.bool b).shown

/-- The same form for a default of any kind. -/
def toValues (form : Form α) (value : α → Value) : Form Value where
  word := form.word
  read v := (form.read v).map value
  shown := Value.shown

end Form

def isUnset : Value → Bool
  | .null => true
  | .text s => Text.isBlankString s
  | _ => false

/-- Whether a setting that fails in this way gets its default. -/
def isUnusable (failure : Failure) : Bool :=
  failure.kind = .value || failure.kind = .type

/-- A setting as it was read, with the warnings about it. -/
structure Setting (α : Type) where
  value : α
  logs : List Log.Record

/-- The warning about a setting that cannot be read. -/
def Form.warning (form : Form α) (context : String) (default : α) (v : Value) : Log.Record :=
  Log.warning ("Invalid " ++ form.word ++ " " ++ v.quoted ++ " for " ++ context ++
    ", using default: " ++ form.shown default)

/-- Reads a setting, or takes its default. -/
def Form.lenient (form : Form α) (context : String) (default : α) (v : Value) :
    Except Failure (Setting α) :=
  if isUnset v then .ok ⟨default, []⟩
  else match form.read v with
    | .ok a => .ok ⟨a, []⟩
    | .error failure =>
      if isUnusable failure then .ok ⟨default, [form.warning context default v]⟩
      else .error failure

end DiskCatalog.Settings
