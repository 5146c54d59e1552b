import DiskCatalog.CommandLine.Mark
import DiskCatalog.Value.Number

/-!
# Invocations

A command line names one of six commands with its options; a search has a query besides.  Options
in front of the command are those of the program.  The word that asks for traces may stand anywhere.
-/

namespace DiskCatalog.CommandLine

inductive Command where
  | search
  | random
  | status
  | inspect
  | serve
  | watch
  deriving DecidableEq, Repr

namespace Command

def name : Command → String
  | .search => "search"
  | .random => "random"
  | .status => "status"
  | .inspect => "inspect"
  | .serve => "serve"
  | .watch => "watch"

def all : List Command := [.search, .random, .status, .inspect, .serve, .watch]

def ofName? (name : String) : Option Command :=
  all.find? fun c => c.name == name

def hasQuery (c : Command) : Bool :=
  c == .search

def helpRule : OptionRule := ⟨["-h", "--help"], .help, false⟩
def databaseRule : OptionRule := ⟨["--db"], .database, true⟩

def rules : Command → List OptionRule
  | .search =>
    [helpRule, ⟨["-l", "--limit"], .limit, true⟩, ⟨["-o", "--offset"], .offset, true⟩,
      databaseRule]
  | .serve => [helpRule, ⟨["--host"], .host, true⟩, ⟨["--port"], .port, true⟩, databaseRule]
  | _ => [helpRule, databaseRule]

end Command

def debugWord : String := "--debug"

def programRules : List OptionRule :=
  [Command.helpRule, ⟨[debugWord], .debug, false⟩, ⟨["-v", "--version"], .version, false⟩]

/-- A command as it was given, with the last text of each option. -/
structure Invocation where
  command : Command
  debug : Bool := false
  query : Option String := none
  limit : Option Int := none
  offset : Option Int := none
  host : Option String := none
  port : Option Int := none
  database : Option String := none
  deriving DecidableEq, Repr

/-- The integer that a text gives to an option. -/
def integerText (text : String) : Except Stop Int :=
  (integerOfText text).mapError fun _ => .misused

namespace Invocation

def give (i : Invocation) (use : Use) (text : String) : Except Stop Invocation := do
  match use with
  | .limit => .ok { i with limit := some (← integerText text) }
  | .offset => .ok { i with offset := some (← integerText text) }
  | .port => .ok { i with port := some (← integerText text) }
  | .host => .ok { i with host := some text }
  | .database => .ok { i with database := some text }
  | .help | .version | .debug => .ok i

def wantsQuery (i : Invocation) : Bool :=
  i.command.hasQuery && i.query.isNone

end Invocation

def stopOf (rules : List OptionRule) (nextIsPlain : Bool) (hit : Hit) : Stop :=
  if !hit.isBare rules nextIsPlain then .misused
  else if hit.rule.use = .version then .version
  else .help

/-- How far the words of a command are read. -/
structure Progress where
  invocation : Invocation
  awaited : Option Use := none
  afterQuery : Bool := false
  leftover : Bool := false
  deriving DecidableEq, Repr

namespace Progress

def give (p : Progress) (use : Use) (text : String) : Except Stop Progress :=
  (p.invocation.give use text).map fun i =>
    { p with invocation := i, awaited := none, afterQuery := false }

def take (p : Progress) (text : String) : Progress :=
  if p.invocation.wantsQuery then
    { p with invocation := { p.invocation with query := some text }, afterQuery := true }
  else { p with leftover := true, afterQuery := false }

/-- Reads one word, where the next one is a plain one or not. -/
def read (p : Progress) (nextIsPlain : Bool) (word : Mark × String) : Except Stop Progress :=
  match p.awaited, word with
  | some use, (.plain, text) => p.give use text
  | some _, _ => .error .misused
  | none, (.option hit, _) =>
    if !hit.rule.takesText then
      .error (stopOf p.invocation.command.rules nextIsPlain hit)
    else match hit.inline with
      | none => .ok { p with awaited := some hit.rule.use, afterQuery := false }
      | some text => p.give hit.rule.use text
  | none, (.stranger, _) => .ok { p with leftover := true, afterQuery := false }
  | none, (.plain, text) => .ok (p.take text)
  | none, (.separator, _) =>
    .ok { p with
      leftover := p.leftover || !(p.invocation.wantsQuery || p.afterQuery), afterQuery := false }

def readAll (p : Progress) : List (Mark × String) → Except Stop Progress
  | [] => .ok p
  | word :: words => do
    let p ← p.read (words.head?.any fun next => next.1 = .plain) word
    p.readAll words

/-- What was read, if the words are complete and none is left over. -/
def done (p : Progress) : Except Stop Invocation :=
  if p.awaited.isSome || p.invocation.wantsQuery || p.leftover then .error .misused
  else .ok p.invocation

end Progress

def readCommand (command : Command) (debug leftover : Bool) (words : List String) :
    Except Stop Invocation := do
  let words ← marked command.rules words
  let p : Progress := { invocation := { command, debug }, leftover }
  (← p.readAll words).done

/-- Reads the words up to the command and what stands behind it. -/
def readProgram (debug leftover : Bool) : List (Mark × String) → Except Stop Invocation
  | (.plain, word) :: words =>
    match Command.ofName? word with
    | none => .error .misused
    | some command => readCommand command debug leftover (words.map (·.2))
  | (.option hit, _) :: words =>
    if hit.rule.use = .debug then
      if hit.isBare programRules false then readProgram true leftover words else .error .misused
    else .error (stopOf programRules false hit)
  | (.stranger, _) :: words => readProgram debug true words
  | _ => .error .misused

def read (words : List String) : Except Stop Invocation := do
  let others := words.filter (· ≠ debugWord)
  readProgram (others.length < words.length) false (← marked programRules others)

end DiskCatalog.CommandLine
