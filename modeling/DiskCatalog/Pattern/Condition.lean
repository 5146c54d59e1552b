import DiskCatalog.Failure
import DiskCatalog.Pattern.Wildcard

/-!
# Conditions on a text column

A condition asks a text column to match patterns: all of a list of them, or all patterns of one of
several groups, and so on.  `Condition.holds` says which values it selects; a missing value is
never selected.  `Condition.clause` and `Condition.parameters` are its query text.
-/

namespace DiskCatalog.Pattern

structure Comparison where
  negated : Bool
  pattern : String
  deriving DecidableEq, Repr

inductive Condition where
  | all (comparisons : List Comparison)
  /-- In one of the groups one of the comparisons holds. -/
  | some (groups : List (List Comparison))
  deriving DecidableEq, Repr

namespace Comparison

def holds (c : Comparison) (value : Option String) : Bool :=
  match value with
  | .none => false
  | .some s => matchesText c.pattern s != c.negated

def clause (column : String) (c : Comparison) : String :=
  column ++ (if c.negated then " NOT LIKE ? ESCAPE '\\'" else " LIKE ? ESCAPE '\\'")

def depth (c : Comparison) : Nat :=
  if c.negated then 3 else 2

/-- Whether a value is selected; a pattern that is too long is refused when it is come to. -/
def check (c : Comparison) (value : Option String) : Except QueryFault Bool :=
  if maxPatternBytes < c.pattern.utf8ByteSize then .error .patternTooComplex
  else .ok (c.holds value)

end Comparison

def checkAll (value : Option String) : List Comparison → Except QueryFault Bool
  | [] => .ok true
  | c :: cs => do if ← c.check value then checkAll value cs else .ok false

def checkAny (value : Option String) : List Comparison → Except QueryFault Bool
  | [] => .ok false
  | c :: cs => do if ← c.check value then .ok true else checkAny value cs

/-- The height of a chain of expressions that are joined from the left. -/
def chainDepth (first : Nat) (count : Nat) : Nat :=
  first + (count - 1)

def maxDepth : Nat := 1000

namespace Condition

def holds (c : Condition) (value : Option String) : Bool :=
  match c with
  | .all comparisons => comparisons.all (·.holds value)
  | .some groups => groups.any fun group => group.any (·.holds value)

def check (c : Condition) (value : Option String) : Except QueryFault Bool :=
  match c with
  | .all comparisons => checkAll value comparisons
  | .some groups => checkAny value groups.flatten

def isEmpty : Condition → Bool
  | .all comparisons => comparisons.isEmpty
  | .some groups => groups.isEmpty

def depth : Condition → Nat
  | .all comparisons => chainDepth ((comparisons.map (·.depth)).max?.getD 0) comparisons.length
  | .some groups =>
    let group (g : List Comparison) := chainDepth ((g.map (·.depth)).max?.getD 0) g.length
    chainDepth ((groups.map group).max?.getD 0) groups.length

/-- The query text of a condition; it is empty when there is nothing to compare with. -/
def clause (column : String) : Condition → String
  | .all comparisons => " AND ".intercalate (comparisons.map (·.clause column))
  | .some groups =>
    " OR ".intercalate (groups.map fun group =>
      "(" ++ " OR ".intercalate (group.map (·.clause column)) ++ ")")

/-- The patterns of a condition in the order of its query text. -/
def parameters : Condition → List String
  | .all comparisons => comparisons.map (·.pattern)
  | .some groups => groups.flatten.map (·.pattern)

end Condition

end DiskCatalog.Pattern
