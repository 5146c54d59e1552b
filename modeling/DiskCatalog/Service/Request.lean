import DiskCatalog.Service.Reply
import DiskCatalog.Text.Blank
import DiskCatalog.Value.Number

/-!
# Requests

A request names a method, a path and parameters.  Four paths answer it with JSON, some others show
pages for readers; a path with slashes behind it is moved to the one without, and a path that is
known answers the method of reading only.
-/

namespace DiskCatalog.Service

structure Request where
  method : String := "GET"
  path : String
  /-- The parameters with their texts, as they stand behind the path. -/
  parameters : List (String × String) := []
  deriving DecidableEq, Repr

/-- The text of a parameter; the last of several counts. -/
def Request.parameter? (r : Request) (name : String) : Option String :=
  r.parameters.reverse.lookup name

inductive Endpoint where
  | health
  | search
  | random
  | status
  deriving DecidableEq, Repr

namespace Endpoint

def path : Endpoint → String
  | .health => "/api/health"
  | .search => "/api/search"
  | .random => "/api/random"
  | .status => "/api/db-status"

def all : List Endpoint := [.health, .search, .random, .status]

def ofPath? (path : String) : Option Endpoint :=
  all.find? fun e => e.path == path

end Endpoint

def pages : List String := ["/openapi.json", "/docs", "/docs/oauth2-redirect", "/redoc"]

inductive Route where
  | endpoint (endpoint : Endpoint)
  | page
  | moved (location : String)
  | unknown
  deriving DecidableEq, Repr

namespace Route

def direct? (path : String) : Option Route :=
  match Endpoint.ofPath? path with
  | some e => some (.endpoint e)
  | none => if pages.contains path then some .page else none

def bare (path : String) : String :=
  String.ofList (path.toList.reverse.dropWhile (· = '/')).reverse

def ofPath (path : String) : Route :=
  match direct? path with
  | some route => route
  | none => if (direct? (bare path)).isSome then .moved (bare path) else .unknown

def methods : Route → List String
  | .endpoint _ => ["GET"]
  | .page => ["GET", "HEAD"]
  | _ => []

end Route

/-! ### The parameters of a search -/

structure Wish where
  query : String
  limit : Option Int
  offset : Option Int
  deriving DecidableEq, Repr

/-- A number of results, if one is asked for: an empty text asks for none, and blanks around a
number do not count. -/
def wantedNumber (name : String) (text : Option String) : Except String (Option Int) :=
  match text.filter (!·.isEmpty) with
  | none => .ok none
  | some text =>
    match integerOfText (Text.trimString text) with
    | .ok n => if n < 0 then refused else .ok (some n)
    | .error _ => refused
where
  /-- The refusal of a text that is no number of results. -/
  refused : Except String (Option Int) :=
    .error ("Query parameter \"" ++ name ++ "\" must be a positive number")

/-- What the parameters of a request ask for, or what is wrong with them. -/
def Request.wish (r : Request) : Except String Wish :=
  match (r.parameter? "q").map Text.trimString with
  | none | some "" => .error "Query parameter \"q\" is required and must be a non-empty string"
  | some query => do
    let limit ← wantedNumber "limit" (r.parameter? "limit")
    let offset ← wantedNumber "offset" (r.parameter? "offset")
    .ok ⟨query, limit, offset⟩

end DiskCatalog.Service
