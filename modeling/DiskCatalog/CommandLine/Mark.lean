import DiskCatalog.Text.Digit
import DiskCatalog.Text.Numeral

/-!
# Words and options

A word of a command line names an option when it starts with a dash.  A long name may be cut short
as long as it stays clear which one is meant; its text may follow after an equals sign, and that of
a name of one letter right behind it.  A negative number names no option, and neither does a word
with a space that is not understood.  Two dashes alone end the options.
-/

namespace DiskCatalog.CommandLine

inductive Use where
  | help
  | version
  | debug
  | limit
  | offset
  | host
  | port
  | database
  deriving DecidableEq, Repr

structure OptionRule where
  names : List String
  use : Use
  takesText : Bool
  deriving DecidableEq, Repr

inductive Stop where
  | misused
  | help
  | version
  deriving DecidableEq, Repr

structure Hit where
  rule : OptionRule
  name : String
  inline : Option String
  equated : Bool
  deriving DecidableEq, Repr

inductive Mark where
  | plain
  /-- Two dashes, the first time. -/
  | separator
  | option (hit : Hit)
  | stranger
  deriving DecidableEq, Repr

/-- The option with a name, which may have its text behind an equals sign. -/
def named? (rules : List OptionRule) (name : String) (text : Option String) : Option Hit :=
  (rules.find? fun rule => rule.names.contains name).map fun rule =>
    ⟨rule, name, text, text.isSome⟩

/-- The parts of a word before and behind its first equals sign. -/
def splitEquals (word : List Char) : Option (List Char × List Char) :=
  match word.span (· ≠ '=') with
  | (name, _ :: text) => some (name, text)
  | _ => none

/-- The options that a long name, perhaps cut short, may mean. -/
def longHits (rules : List OptionRule) (start : List Char) (text : Option String) : List Hit :=
  rules.flatMap fun rule =>
    (rule.names.filter fun name => start.isPrefixOf name.toList).map
      (⟨rule, ·, text, text.isSome⟩)

/-- The options that a word with a single dash may mean. -/
def shortHits (rules : List OptionRule) (word : List Char) : List Hit :=
  rules.flatMap fun rule => rule.names.filterMap fun name =>
    if name.toList = word.take 2 then
      some ⟨rule, name, some (String.ofList (word.drop 2)), false⟩
    else if word.isPrefixOf name.toList then some ⟨rule, name, none, false⟩
    else none

/-- The options that a word may mean whose name is not given in full. -/
def guesses (rules : List OptionRule) (word : List Char) : List Hit :=
  match word with
  | '-' :: '-' :: _ =>
    match splitEquals word with
    | some (name, text) => longHits rules name (some (String.ofList text))
    | none => longHits rules word none
  | _ => shortHits rules word

def isDigit (c : Char) : Bool :=
  (Text.digit? c).isSome

/-- Whether a word is a negative number, perhaps with the end of a line behind it. -/
def isNegativeNumber (word : List Char) : Bool :=
  let word := if word.getLast? = some '\n' then word.dropLast else word
  match word with
  | '-' :: number =>
    match number.span isDigit with
    | (digits, []) => digits ≠ []
    | (_, '.' :: decimals) => decimals ≠ [] && decimals.all isDigit
    | _ => false
  | _ => false

/-- The mark of a word in front of the separator. -/
def markOf (rules : List OptionRule) (word : String) : Except Stop Mark :=
  let chars := word.toList
  let full := named? rules word none
  let split := (splitEquals chars).bind fun (name, text) =>
    named? rules (String.ofList name) (some (String.ofList text))
  if chars.head? ≠ some '-' then .ok .plain
  else match full with
    | some hit => .ok (.option hit)
    | none =>
      if chars.length = 1 then .ok .plain
      else match split, guesses rules chars with
        | some hit, _ => .ok (.option hit)
        | none, [hit] => .ok (.option hit)
        | none, _ :: _ :: _ => .error .misused
        | none, [] =>
          .ok (if isNegativeNumber chars || chars.contains ' ' then .plain else .stranger)

/-- The words with their marks; behind the separator every word is a plain one. -/
def marked (rules : List OptionRule) : List String → Except Stop (List (Mark × String))
  | [] => .ok []
  | word :: words =>
    if word = "--" then .ok ((.separator, word) :: words.map (.plain, ·))
    else do
      let mark ← markOf rules word
      let rest ← marked rules words
      .ok ((mark, word) :: rest)

/-- Whether the letters behind an option of one letter that takes no text are understood: they may
name more options, and the first that is unknown ends the word.  An option that takes a text has it
in the rest of the word or else in the next word, which has to be a plain one. -/
def sharesWord (rules : List OptionRule) (nextIsPlain : Bool) : List Char → Bool
  | [] => true
  | '-' :: _ => false
  | '=' :: _ => false
  | c :: rest =>
    match named? rules (String.ofList ['-', c]) none with
    | none => true
    | some hit =>
      if hit.rule.takesText then rest ≠ [] || nextIsPlain else sharesWord rules nextIsPlain rest

/-- Whether an option that takes no text is given without one. -/
def Hit.isBare (rules : List OptionRule) (nextIsPlain : Bool) (hit : Hit) : Bool :=
  match hit.inline with
  | none => true
  | some text =>
    !hit.equated && !text.isEmpty && !"--".isPrefixOf hit.name &&
      sharesWord rules nextIsPlain text.toList

end DiskCatalog.CommandLine
