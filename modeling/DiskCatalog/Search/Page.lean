import DiskCatalog.Pattern.Query
import DiskCatalog.Search.Result

/-!
# Pages of search results

A search finds the entries whose names hold every term, the largest first and equal ones by id, and
answers one page of them.
-/

namespace DiskCatalog.Search

open Index Pattern

def defaultLimit : Int := 100
def maxLimit : Int := 1000

/-- A number of results as it was asked for. -/
def wantedCount : Value → Except NumberFault (Option Int)
  | .null => .ok none
  | v => v.toInteger.map some

def clampLimit (limit : Option Int) : Int :=
  match limit with
  | none => defaultLimit
  | some n => min (max 1 n) maxLimit

def clampOffset (offset : Option Int) : Int :=
  match offset with
  | none => 0
  | some n => max 0 n

def shownSize (e : Entry) : Int :=
  e.size.getD 0

/-- Whether an entry comes before another or stands with it. -/
def precedes (a b : Entry) : Bool :=
  if shownSize a = shownSize b then a.id ≤ b.id else shownSize b < shownSize a

def queryText (query : String) : String × List String :=
  let terms := Query.parse query
  ("SELECT " ++ ", ".intercalate columns ++ " FROM search_index WHERE " ++
      Query.clause "name" terms ++ " ORDER BY COALESCE(size, 0) DESC, id ASC",
    (Query.condition terms).parameters)

/-- The entries that a condition on the name selects. -/
def select (condition : Condition) : List Entry → Except QueryFault (List Entry)
  | [] => .ok []
  | e :: es => do
    let found ← condition.check (some e.name.read)
    let rest ← select condition es
    .ok (if found then e :: rest else rest)

/-- All the entries that a query finds, in the order in which they are shown. -/
def find (terms : List Term) (entries : List Entry) : Except QueryFault (List Entry) :=
  let condition := Query.condition terms
  if Pattern.maxDepth < condition.depth then .error .expressionTooDeep
  else (select condition entries).map fun found => found.mergeSort precedes

/-- The entries on one page of what a query finds. -/
def page (query : String) (limit offset : Option Int) (entries : List Entry) :
    Except Failure (List Entry) :=
  let terms := Query.parse query
  let first := clampOffset offset
  if Pattern.maxDepth < (Query.condition terms).depth then .error (.query .expressionTooDeep)
  else if !Store.isStorable first then .error .beyondStoredInteger
  else
    ((find terms entries).map fun found =>
      (found.drop first.toNat).take (clampLimit limit).toNat).mapError .query

structure Response where
  query : String
  results : List Result
  deriving Repr

/-- The fields of an answer that took so many milliseconds. -/
def Response.toFields (r : Response) (elapsedMs : Nat) : List (String × Value) :=
  [("query", .text r.query), ("results", .list (r.results.map (·.toValue))),
   ("totalResultsOnThisPage", .int r.results.length), ("executionTimeMs", .int elapsedMs)]

def respond (query : String) (limit offset : Option Int) (entries : List Entry) :
    Except Failure Response := do
  let found ← page query limit offset entries
  let results ← found.mapM Result.ofEntry
  .ok ⟨query, results⟩

/-- The entry that a number picks; any number picks one unless there are none. -/
def pick (number : Nat) (entries : List Entry) : Except Failure Result :=
  match entries[number % entries.length]? with
  | some e => Result.ofEntry e
  | none => .error .noItems

end DiskCatalog.Search
