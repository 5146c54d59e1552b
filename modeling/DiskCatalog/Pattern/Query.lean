import DiskCatalog.Pattern.Condition
import DiskCatalog.Text.Blank

/-!
# Search queries

A query is a row of words and of phrases in double quotes; a quote that is not closed runs to the
end.  A name is found when it holds every term.
-/

namespace DiskCatalog.Pattern

structure Term where
  text : String
  isPhrase : Bool
  deriving DecidableEq, Repr

namespace Query

open Text

/-- The terms of pieces that lie outside and inside quotes in turn. -/
def termsOf (inside : Bool) : List (List Char) → List Term
  | [] => []
  | piece :: rest =>
    let own :=
      if inside then
        let phrase := trim piece
        if phrase = [] then [] else [⟨String.ofList phrase, true⟩]
      else (words piece).map fun word => ⟨String.ofList word, false⟩
    own ++ termsOf (!inside) rest

/-- The terms of a query, in order. -/
def parse (text : String) : List Term :=
  termsOf false (pieces '"' text.toList)

/-- The pattern of the texts that hold a given text. -/
def substringPattern (text : String) : String :=
  String.ofList ('%' :: escape text.toList ++ ['%'])

def condition (terms : List Term) : Condition :=
  .all (terms.map fun term => ⟨false, substringPattern term.text⟩)

/-- The query text of the condition; without terms everything is found. -/
def clause (column : String) (terms : List Term) : String :=
  if terms.isEmpty then "1=1" else (condition terms).clause column

end Query

end DiskCatalog.Pattern
