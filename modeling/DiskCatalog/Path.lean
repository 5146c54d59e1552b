import DiskCatalog.Failure
import DiskCatalog.Text.Blank

/-!
# Paths

A path starts with any number of slashes: two exactly are kept, any other number counts as one.
Between its parts one slash stands.
-/

namespace DiskCatalog.Path

/-- The slashes that a path keeps at its start. -/
def leadingSlashes : List Char → Nat
  | '/' :: '/' :: '/' :: _ => 1
  | '/' :: '/' :: _ => 2
  | '/' :: _ => 1
  | _ => 0

/-- The names in a path, without those that stay in place. -/
def parts (path : List Char) : List (List Char) :=
  (Text.pieces '/' path).filter fun p => p ≠ [] ∧ p ≠ ['.']

/-- The path of some names; a path without any is a point. -/
def ofParts (slashes : Nat) (names : List (List Char)) : List Char :=
  match List.replicate slashes '/' ++ (names.intersperse ['/']).flatten with
  | [] => ['.']
  | path => path

def tidy (path : String) : String :=
  String.ofList (ofParts (leadingSlashes path.toList) (parts path.toList))

/-- The names, the last first, after one more name.  Two points climb where there is a name to
leave, and vanish at the root. -/
def enter (rooted : Bool) (names : List (List Char)) (name : List Char) : List (List Char) :=
  if name = ['.', '.'] then
    match names with
    | [] => if rooted then [] else [name]
    | last :: above => if last = ['.', '.'] then name :: names else above
  else name :: names

/-- The path without steps that lead nowhere or back. -/
def normal (path : List Char) : List Char :=
  let slashes := leadingSlashes path
  ofParts slashes ((parts path).foldl (enter (0 < slashes)) []).reverse

/-- A path below a directory, unless it starts at the root. -/
def join (here path : List Char) : List Char :=
  if path.head? = some '/' then path
  else if here = [] ∨ here.getLast? = some '/' then here ++ path
  else here ++ '/' :: path

/-- The normal path from the root, for a path that starts in a directory. -/
def absolute (here path : String) : String :=
  String.ofList (normal (join here.toList path.toList))

def directory (path : String) : String :=
  let head := (path.toList.reverse.dropWhile (· ≠ '/')).reverse
  if head.all (· = '/') then String.ofList head
  else String.ofList (head.reverse.dropWhile (· = '/')).reverse

/-- The directory of a user whose home is set to a text. -/
def homeOf (home : String) : List Char :=
  match (home.toList.reverse.dropWhile (· = '/')).reverse with
  | [] => ['/']
  | home => home

/-- The tidy path, with the home directory in the place of a tilde at its start.  Only the home of
the user at hand is known. -/
def expand (home : Option String) (path : String) : Except Failure String :=
  match leadingSlashes path.toList, parts path.toList with
  | 0, ('~' :: user) :: names =>
    match user, home with
    | [], some home =>
      let home := homeOf home
      .ok (String.ofList (ofParts (leadingSlashes home) (parts home ++ names)))
    | _, _ => .error (.other .runtime "Could not determine home directory.")
  | _, _ => .ok (tidy path)

end DiskCatalog.Path
