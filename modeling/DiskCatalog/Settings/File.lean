import DiskCatalog.Settings.Environment
import DiskCatalog.Text.Blank

/-!
# Settings files

A settings file has a line `NAME=text` for each variable, perhaps after the word `export`.  The text
may stand in single or double quotes, and then run over several lines; without quotes it ends
before a blank and a number sign.  A line that does not follow these rules is skipped.

In a text, `$` and a name in braces stand for the text of another variable, with a default after
`:-` if there is none.  `fill` gives an environment the variables that it does not have yet.
-/

namespace DiskCatalog.Settings.File

open Text

/-- A variable with its text; a name alone has none. -/
structure Binding where
  name : String
  text : Option String
  deriving DecidableEq, Repr

/-- The text with every line end as one line feed. -/
def plainLines : List Char → List Char
  | '\r' :: '\n' :: s => '\n' :: plainLines s
  | '\r' :: s => '\n' :: plainLines s
  | c :: s => c :: plainLines s
  | [] => []

def isInlineBlank (c : Char) : Bool :=
  isBlank c && c != '\n'

def skipInline (s : List Char) : List Char :=
  s.dropWhile isInlineBlank

/-- The rest of the text after the line at hand. -/
def skipLine (s : List Char) : List Char :=
  (s.dropWhile (· ≠ '\n')).drop 1

/-- Splits at the first quote that no backslash precedes. -/
def splitQuote (quote : Char) : List Char → Option (List Char × List Char)
  | [] => none
  | '\\' :: c :: s =>
    if c = quote then (splitQuote quote s).map fun (body, rest) => ('\\' :: c :: body, rest)
    else (splitQuote quote (c :: s)).map fun (body, rest) => ('\\' :: body, rest)
  | c :: s =>
    if c = quote then some ([], s)
    else (splitQuote quote s).map fun (body, rest) => (c :: body, rest)

def splitLastQuote (quote : Char) (s : List Char) : Option (List Char × List Char) :=
  match s.reverse.span (· ≠ quote) with
  | (_, []) => none
  | (after, _ :: before) => some (before.reverse, after.reverse)

/-- The text up to the closing quote and the rest after it.  When a backslash precedes every quote,
the last one closes. -/
def quotedText (quote : Char) (s : List Char) : Option (List Char × List Char) :=
  (splitQuote quote s).or (splitLastQuote quote s)

/-- What a character stands for after a backslash in single quotes. -/
def singleEscape? : Char → Option Char
  | '\\' => some '\\'
  | '\'' => some '\''
  | _ => none

/-- What a character stands for after a backslash in double quotes. -/
def doubleEscape? : Char → Option Char
  | '\\' => some '\\'
  | '\'' => some '\''
  | '"' => some '"'
  | 'a' => some '\x07'
  | 'b' => some '\x08'
  | 'f' => some '\x0c'
  | 'n' => some '\n'
  | 'r' => some '\r'
  | 't' => some '\t'
  | 'v' => some '\x0b'
  | _ => none

def unescape (escape? : Char → Option Char) : List Char → List Char
  | '\\' :: c :: s =>
    match escape? c with
    | some d => d :: unescape escape? s
    | none => '\\' :: unescape escape? (c :: s)
  | c :: s => c :: unescape escape? s
  | [] => []

/-- The part before the blanks in front of a number sign. -/
def beforeComment : List Char → List Char
  | [] => []
  | c :: s =>
    if isBlank c && (s.dropWhile isBlank).head? = some '#' then []
    else c :: beforeComment s

/-- The text of a variable and what follows it. -/
def readText (s : List Char) : Option (List Char × List Char) :=
  match s with
  | '\'' :: s => (quotedText '\'' s).map fun (body, rest) => (unescape singleEscape? body, rest)
  | '"' :: s => (quotedText '"' s).map fun (body, rest) => (unescape doubleEscape? body, rest)
  | s =>
    let (line, rest) := s.span (· ≠ '\n')
    some (trimRight (beforeComment line), rest)

/-- The rest after the word `export` and blanks, where they stand. -/
def skipExport (s : List Char) : List Char :=
  match s with
  | 'e' :: 'x' :: 'p' :: 'o' :: 'r' :: 't' :: c :: rest =>
    if isInlineBlank c then skipInline rest else s
  | _ => s

/-- The name at hand, none before a comment, and what follows it; or the rest where a name has to
stand and does not. -/
def readName (s : List Char) : Except (List Char) (Option (List Char) × List Char) :=
  match s with
  | '#' :: _ => .ok (none, s)
  | '\'' :: t =>
    match t.span (· ≠ '\'') with
    | (name@(_ :: _), _ :: rest) => .ok (some name, rest)
    | _ => .error s
  | s =>
    match s.span fun c => !(c = '=' || c = '#' || isBlank c) with
    | ([], _) => .error s
    | (name, rest) => .ok (some name, rest)

/-- What comes after a comment that may stand here. -/
def skipComment (s : List Char) : List Char :=
  match skipInline s with
  | '#' :: rest => rest.dropWhile (· ≠ '\n')
  | _ => s

/-- The rest after the end of a line, if the line ends here but for blanks. -/
def endLine? (s : List Char) : Option (List Char) :=
  match skipInline s with
  | [] => some []
  | '\n' :: rest => some rest
  | _ => none

/-- Reads one line, or the lines of one text.  On the left stands the rest at the place where a
line breaks the rules. -/
def readBinding (s : List Char) : Except (List Char) (Option Binding × List Char) := do
  let (name, rest) ← readName (skipExport s)
  let rest := skipInline rest
  let (text, rest) ← match rest with
    | '=' :: rest =>
      let rest := skipInline rest
      match readText rest with
      | some (text, rest) => .ok (some (String.ofList text), rest)
      | none => .error rest
    | _ => .ok (none, rest)
  let rest := skipComment rest
  match endLine? rest with
  | some after => .ok (name.map fun n => ⟨String.ofList n, text⟩, after)
  | none => .error (skipInline rest)

/-- The bindings of a text with so many lines at most. -/
def bindings : Nat → List Char → List Binding
  | 0, _ => []
  | lines + 1, s =>
    match s.dropWhile isBlank with
    | [] => []
    | s =>
      match readBinding s with
      | .ok (some binding, rest) => binding :: bindings lines rest
      | .ok (none, rest) => bindings lines rest
      | .error rest => bindings lines (skipLine rest)

/-- The bindings of a settings file.  Every line takes up at least one character. -/
def read (text : String) : List Binding :=
  let s := plainLines text.toList
  bindings (s.length + 1) s

/-- A reference at the head of a text, after its opening brace: the name, the default and what
follows the closing brace. -/
def readReference (s : List Char) : Option (List Char × List Char × List Char) :=
  let (name, rest) := s.span fun c => c ≠ '\x7d' ∧ c ≠ ':'
  match rest with
  | '\x7d' :: rest => some (name, [], rest)
  | ':' :: '-' :: rest =>
    match rest.span (· ≠ '\x7d') with
    | (default, _ :: rest) => some (name, default, rest)
    | _ => none
  | _ => none

/-- Puts texts in the place of references.  `known` says for each name whether it is known, and
with which text; each reference takes up a character of the bound. -/
def expand (known : String → Option (Option String)) : Nat → List Char → List Char
  | bound + 1, '$' :: '\x7b' :: s =>
    match readReference s with
    | some (name, default, rest) =>
      let text := match known (String.ofList name) with
        | some text => (text.getD "").toList
        | none => default
      text ++ expand known bound rest
    | none => '$' :: expand known bound ('\x7b' :: s)
  | bound + 1, c :: s => c :: expand known bound s
  | _, _ => []

/-- The bindings with their references replaced, the latest first.  The environment counts before
the bindings above. -/
def resolve (env : Environment) (bindings : List Binding) : List Binding :=
  bindings.foldl (fun above b =>
    let known := fun name =>
      match env.get? name with
      | some text => some (some text)
      | none => (above.find? (·.name == name)).map (·.text)
    ⟨b.name, b.text.map fun text =>
      String.ofList (expand known text.length text.toList)⟩ :: above) []

/-- The names of some bindings, each once, in the order in which they come up first. -/
def names (bindings : List Binding) : List String :=
  bindings.foldl (fun seen b => if seen.contains b.name then seen else seen ++ [b.name]) []

/-- Gives an environment the variables of a settings file that it does not have. -/
def fill (env : Environment) (text : String) : Except Failure Environment :=
  let bindings := read text
  let resolved := resolve env bindings
  (names bindings).foldlM (fun filled name =>
    match env.get? name, (resolved.find? (·.name == name)).bind (·.text) with
    | none, some text => filled.assign name text
    | _, _ => .ok filled) env

end DiskCatalog.Settings.File
