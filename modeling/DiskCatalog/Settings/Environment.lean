import DiskCatalog.Failure

/-!
# Environments

An environment gives texts to names.
-/

namespace DiskCatalog.Settings

structure Environment where
  /-- The names with their texts; of two with one name the first counts. -/
  texts : List (String × String)
  deriving DecidableEq, Repr

namespace Environment

def empty : Environment := ⟨[]⟩

def get? (env : Environment) (name : String) : Option String :=
  env.texts.lookup name

def set (env : Environment) (name text : String) : Environment :=
  ⟨(name, text) :: env.texts⟩

/-- The first of some variables that has a text which is not empty. -/
def firstSet (env : Environment) (names : List String) : Option String :=
  names.findSome? fun name => (env.get? name).filter (!·.isEmpty)

/-- Sets a variable.  The name may hold no equals sign, and neither text a zero character. -/
def assign (env : Environment) (name text : String) : Except Failure Environment :=
  if (name ++ text).toList.contains '\x00' then .error (.other .value "embedded null byte")
  else if name.toList.contains '=' then
    .error (.other .value "illegal environment variable name")
  else .ok (env.set name text)

end Environment

end DiskCatalog.Settings
