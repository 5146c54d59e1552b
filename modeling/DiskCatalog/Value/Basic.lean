import DiskCatalog.Binary64.Shortest
import DiskCatalog.Text.Quoted

/-!
# Values of no fixed kind

Settings, log fields and report cells can hold anything: a `Value` is nothing, a truth value, a
number, a text, some bytes, a list or an object with its fields in order.  `Value.quoted` is the
text of a value inside a message and `Value.shown` the same with a text standing for itself.
-/

namespace DiskCatalog

inductive Value where
  | null
  | bool (b : Bool)
  | int (n : Int)
  | float (x : Binary64)
  | text (s : String)
  | bytes (content : List UInt8)
  | list (items : List Value)
  | object (fields : List (String × Value))
  deriving Repr, Inhabited

namespace Value

mutual

def quoted : Value → String
  | .null => "None"
  | .bool true => "True"
  | .bool false => "False"
  | .int n => Text.ofInt n
  | .float x => x.toText
  | .text s => Text.quoted s
  | .bytes content => Text.quotedBytes content
  | .list items => "[" ++ quotedItems items ++ "]"
  | .object fields => "\x7b" ++ quotedFields fields ++ "\x7d"

def quotedItems : List Value → String
  | [] => ""
  | [v] => v.quoted
  | v :: vs => v.quoted ++ ", " ++ quotedItems vs

def quotedFields : List (String × Value) → String
  | [] => ""
  | [(k, v)] => Text.quoted k ++ ": " ++ v.quoted
  | (k, v) :: fields => Text.quoted k ++ ": " ++ v.quoted ++ ", " ++ quotedFields fields

end

def shown : Value → String
  | .text s => s
  | v => v.quoted

/-- Whether a value counts as empty: nothing, false, zero, no bytes, and an empty text, list or
object. -/
def isEmpty : Value → Bool
  | .null => true
  | .bool b => !b
  | .int n => n == 0
  | .float x => x.isZero
  | .text s => s.isEmpty
  | .bytes content => content.isEmpty
  | .list items => items.isEmpty
  | .object fields => fields.isEmpty

/-- The name that messages give to the kind of a value. -/
def kindName : Value → String
  | .null => "NoneType"
  | .bool _ => "bool"
  | .int _ => "int"
  | .float _ => "float"
  | .text _ => "str"
  | .bytes _ => "bytes"
  | .list _ => "list"
  | .object _ => "dict"

/-- A text, or nothing where there is none. -/
def ofText? : Option String → Value
  | some s => .text s
  | none => .null

/-- An integer, or nothing where there is none. -/
def ofInt? : Option Int → Value
  | some n => .int n
  | none => .null

end Value

end DiskCatalog
