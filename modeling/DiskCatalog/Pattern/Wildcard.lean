import DiskCatalog.Text.Case

/-!
# Wildcard patterns

In a pattern `%` stands for any run of characters and `_` for any one; a backslash makes the next
character stand for itself.  Letters match up to the case of ASCII.  A pattern and a text both end
at their first character zero.  `matches` runs on the tokens of a pattern.
-/

namespace DiskCatalog.Pattern

inductive Token where
  | run
  | one
  | char (c : Char)
  /-- Nothing matches: a backslash with nothing behind it. -/
  | never
  deriving DecidableEq, Repr

def untilZero (s : List Char) : List Char :=
  s.takeWhile (· ≠ '\x00')

def tokens : List Char → List Token
  | [] => []
  | '%' :: p => .run :: tokens p
  | '_' :: p => .one :: tokens p
  | ['\\'] => [.never]
  | '\\' :: c :: p => .char c :: tokens p
  | c :: p => .char c :: tokens p

/-- Whether two characters are the same up to the case of ASCII letters. -/
def sameLetter (a b : Char) : Bool :=
  Text.foldAscii a = Text.foldAscii b

/-- Every text that is left when some characters are taken from the front, longest first. -/
def suffixes : List Char → List (List Char)
  | [] => [[]]
  | c :: s => (c :: s) :: suffixes s

def Token.matches : List Token → List Char → Bool
  | [], s => s.isEmpty
  | .run :: p, s => (suffixes s).any (Token.matches p)
  | .one :: p, s =>
    match s with
    | [] => false
    | _ :: t => Token.matches p t
  | .char c :: p, s =>
    match s with
    | [] => false
    | d :: t => sameLetter c d && Token.matches p t
  | .never :: _, _ => false

def matchesText (pattern text : String) : Bool :=
  Token.matches (tokens (untilZero pattern.toList)) (untilZero text.toList)

/-- The most bytes that a pattern may have in UTF-8. -/
def maxPatternBytes : Nat := 50000

/-- A character of a pattern that stands for itself. -/
def escapeChar (c : Char) : List Char :=
  if c = '\\' ∨ c = '%' ∨ c = '_' then ['\\', c] else [c]

/-- The pattern that a text alone matches, up to the case of ASCII letters. -/
def escape (s : List Char) : List Char :=
  s.flatMap escapeChar

end DiskCatalog.Pattern
