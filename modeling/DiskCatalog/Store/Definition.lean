import DiskCatalog.Store.Catalog

/-!
# Table definitions

A database keeps the definition of a table as the text that made it.  It has a list in brackets, of
columns and of rules about several columns, with commas between them.  A column has a name, perhaps
a type, and rules of its own.
-/

namespace DiskCatalog.Store

/-- A word, a quoted text or a mark of a definition. -/
structure Piece where
  text : String
  /-- Whether the text is quoted, and so no keyword and no mark. -/
  isQuoted : Bool := false
  source : List Char
  gap : List Char
  deriving DecidableEq, Repr

namespace Piece

def isMark (c : Char) (p : Piece) : Bool :=
  !p.isQuoted && p.source == [c]

/-- Whether a piece is a keyword, which is given in capitals. -/
def isKeyword (p : Piece) (word : String) : Bool :=
  !p.isQuoted && p.text.map Text.raiseAscii == word

def closing? : Char → Option Char
  | '"' => some '"'
  | '\'' => some '\''
  | '\x60' => some '\x60'
  | '[' => some ']'
  | _ => none

/-- The quoted text up to its closing mark and what follows; the mark stands twice for itself. -/
def splitQuoted (close : Char) : List Char → List Char × List Char
  | [] => ([], [])
  | [c] => if c = close then ([], []) else ([c], [])
  | c :: d :: s =>
    if c = close then
      if d = close then
        let (text, rest) := splitQuoted close s
        (c :: text, rest)
      else ([], d :: s)
    else
      let (text, rest) := splitQuoted close (d :: s)
      (c :: text, rest)

/-- What stands behind the end of a comment over several lines. -/
def skipComment : List Char → List Char
  | '*' :: '/' :: s => s
  | _ :: s => skipComment s
  | [] => []

/-- What stands behind blanks and comments; each takes up a character of the bound. -/
def skipGap : (bound : Nat) → List Char → List Char
  | bound + 1, '-' :: '-' :: s => skipGap bound (s.dropWhile (· ≠ '\n'))
  | bound + 1, '/' :: '*' :: s => skipGap bound (skipComment s)
  | bound + 1, c :: s => if Cell.isCellBlank c then skipGap bound s else c :: s
  | _, s => s

def isWordChar (c : Char) : Bool :=
  c.isAlphanum || c = '_' || c = '$' || 128 ≤ c.toNat

/-- The text of the piece at hand, whether it is quoted, and what follows. -/
def split (c : Char) (s : List Char) : List Char × Bool × List Char :=
  match closing? c with
  | some close =>
    let (text, rest) := splitQuoted close s
    (text, true, rest)
  | none =>
    if isWordChar c then (c :: s.takeWhile isWordChar, false, s.dropWhile isWordChar)
    else ([c], false, s)

/-- The pieces of a definition; each takes up a character of the bound. -/
def readAll : (bound : Nat) → List Char → List Piece
  | 0, _ => []
  | bound + 1, s =>
    match skipGap s.length s with
    | [] => []
    | c :: t =>
      let (text, isQuoted, rest) := split c t
      { text := String.ofList text, isQuoted
        source := (c :: t).take (t.length + 1 - rest.length)
        gap := s.take (s.length - (t.length + 1)) } :: readAll bound rest

/-- The pieces in the first pair of brackets, when so many are open. -/
def inside : (depth : Nat) → List Piece → List Piece
  | _, [] => []
  | 0, p :: ps => if p.isMark '(' then inside 1 ps else inside 0 ps
  | depth + 1, p :: ps =>
    if p.isMark '(' then p :: inside (depth + 2) ps
    else if !p.isMark ')' then p :: inside (depth + 1) ps
    else if depth = 0 then []
    else p :: inside depth ps

def parts (depth : Nat) : List Piece → List (List Piece)
  | [] => [[]]
  | p :: ps =>
    if depth = 0 && p.isMark ',' then [] :: parts 0 ps
    else
      let depth := if p.isMark '(' then depth + 1 else if p.isMark ')' then depth - 1 else depth
      match parts depth ps with
      | [] => [[p]]
      | part :: others => (p :: part) :: others

def outside (depth : Nat) : List Piece → List Piece
  | [] => []
  | p :: ps =>
    if p.isMark '(' then outside (depth + 1) ps
    else if p.isMark ')' then outside (depth - 1) ps
    else if depth = 0 then p :: outside depth ps
    else outside depth ps

def haveWords (first second : String) : List Piece → Bool
  | p :: q :: ps =>
    (p.isKeyword first && q.isKeyword second) || haveWords first second (q :: ps)
  | _ => false

/-- The text of some pieces as they are written. -/
def sourceOf : List Piece → String
  | [] => ""
  | p :: ps => String.ofList (p.source ++ ps.flatMap fun p => p.gap ++ p.source)

end Piece

/-- The keywords with which a rule about a column starts. -/
def columnRuleWords : List String :=
  ["CONSTRAINT", "PRIMARY", "NOT", "NULL", "UNIQUE", "CHECK", "DEFAULT", "COLLATE", "REFERENCES",
    "GENERATED", "AS"]

/-- The keywords with which a rule about several columns starts. -/
def tableRuleWords : List String :=
  ["CONSTRAINT", "PRIMARY", "UNIQUE", "CHECK", "FOREIGN"]

/-- Whether a list of keywords has the one that a piece is. -/
def Piece.isAmong (p : Piece) (words : List String) : Bool :=
  words.any p.isKeyword

def isTableRule (part : List Piece) : Bool :=
  part.head?.any (·.isAmong tableRuleWords)

def columnRules (part : List Piece) : List Piece :=
  Piece.outside 0 ((part.drop 1).dropWhile (!·.isAmong columnRuleWords))

/-- Whether two names are one: the case of letters does not count. -/
def isSameName (a b : String) : Bool :=
  a.map Text.foldAscii == b.map Text.foldAscii

/-- The names of the columns that a rule makes the primary key. -/
def keyNames (rule : List Piece) : List String :=
  if Piece.haveWords "PRIMARY" "KEY" (Piece.outside 0 rule) then
    (Piece.parts 0 (Piece.inside 0 rule)).filterMap fun part => part.head?.map (·.text)
  else []

/-- What a definition tells about the rows of a table. -/
structure Definition where
  columns : List Column
  /-- The column that stands for the number of a row and is not stored. -/
  numbered : Option Nat
  deriving DecidableEq, Repr

namespace Definition

/-- The column of a part, where some names make up the primary key. -/
def columnOf? (keys : List String) (part : List Piece) : Option Column :=
  part.head?.map fun name =>
    let rules := columnRules part
    { name := name.text
      type := Piece.sourceOf ((part.drop 1).takeWhile (!·.isAmong columnRuleWords))
      notNull := Piece.haveWords "NOT" "NULL" rules
      primaryKey := Piece.haveWords "PRIMARY" "KEY" rules || keys.any (isSameName name.text) }

/-- Whether a column numbers the rows: a whole number that is the primary key alone. -/
def isNumbering (columns : List Column) (column : Column) : Bool :=
  column.primaryKey && isSameName column.type "INTEGER" &&
    (columns.filter (·.primaryKey)).length == 1

def read (text : String) : Definition :=
  let pieces := Piece.readAll text.length text.toList
  let parts := Piece.parts 0 (Piece.inside 0 pieces)
  let keys := (parts.filter isTableRule).flatMap keyNames
  let columns := (parts.filter (!isTableRule ·)).filterMap (columnOf? keys)
  { columns, numbered := columns.findIdx? (isNumbering columns) }

end Definition

end DiskCatalog.Store
