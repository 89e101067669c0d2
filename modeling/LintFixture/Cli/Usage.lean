import LintFixture.Cli.Command
import LintFixture.Text.ControlSequence

/-!
# Usage

How the arguments of the program name a command. Arguments are taken one after
the other. A positional value is checked when a further argument is accepted or
when the arguments end; an argument that has no place is refused at once, before
the value ahead of it is checked. Missing values are reported last.
-/

namespace LintFixture.Cli

/-- The commands by name. -/
inductive Verb where
  | inspect
  | position
  | offset
  | format
  deriving DecidableEq, Repr

/-- Why the arguments name no command. -/
inductive UsageError where
  /-- There are no arguments. -/
  | nothing
  | unknownCommand (arg : String)
  | missingArguments
  | unexpectedArgument (arg : String)
  /-- A switch was given a value. -/
  | unexpectedValue (value switch : String)
  | repeatedSwitch (switch : String)
  | emptyValue (name : String)
  | invalidValue (value name : String) (error : NumeralError)
  deriving DecidableEq, Repr

/-- What the arguments ask for. -/
inductive Request where
  | help
  | helpOf (verb : Verb)
  | helpOfHelp
  | version
  | run (command : Command)
  deriving DecidableEq, Repr

/-! ## Texts -/

def about : String := "Inspect and normalize XML rule-test fixtures"

namespace UsageError

/-- An argument as messages show it: no order to the terminal passes through a message. -/
def quoted (arg : String) : String := "'" ++ String.ofList (Text.plain arg.toList) ++ "'"

def message : UsageError → String
  | .nothing => about
  | .unknownCommand arg => "error: unrecognized subcommand " ++ quoted arg
  | .missingArguments => "error: the following required arguments were not provided:"
  | .unexpectedArgument arg => s!"error: unexpected argument {quoted arg} found"
  | .unexpectedValue value switch =>
    s!"error: unexpected value {quoted value} for '{switch}' found; no more were expected"
  | .repeatedSwitch switch => s!"error: the argument '{switch}' cannot be used multiple times"
  | .emptyValue name => s!"error: a value is required for '<{name}>' but none was supplied"
  | .invalidValue value name error =>
    s!"error: invalid value {quoted value} for '<{name}>': " ++ error.message

/-- The first line of the message. -/
def headline (e : UsageError) : String :=
  String.ofList ((Text.lines e.message.toList).headD [])

end UsageError

namespace Verb

def name : Verb → String
  | .inspect => "inspect"
  | .position => "position"
  | .offset => "offset"
  | .format => "format"

def ofName? (name : String) : Option Verb :=
  [inspect, position, offset, format].find? (·.name == name)

def about : Verb → String
  | .inspect => "Parse a fixture file and summarize its test cases"
  | .position => "Convert a character offset into a (line, column) position"
  | .offset => "Convert a (line, column) position into a character offset"
  | .format => "Parse a fixture file and write it back in canonical form to stdout"

/-- The positional values that come after the file. -/
def numbers : Verb → List String
  | .inspect | .format => []
  | .position => ["OFFSET"]
  | .offset => ["LINE", "COLUMN"]

/-- The help text of a command. -/
def help (v : Verb) : String :=
  v.about ++ "\n\nUsage: ruletest " ++ v.name ++
    match v with
    | .inspect => " [OPTIONS] <FILE>

Arguments:
  <FILE>  Fixture file

Options:
      --json  Print the parsed collection as JSON
  -h, --help  Print help
"
    | .position => " <FILE> <OFFSET>

Arguments:
  <FILE>    Text file
  <OFFSET>  0-based character offset

Options:
  -h, --help  Print help
"
    | .offset => " <FILE> <LINE> <COLUMN>

Arguments:
  <FILE>    Text file
  <LINE>    1-based line
  <COLUMN>  1-based visual column, tabs expanded to 8

Options:
  -h, --help  Print help
"
    | .format => " <FILE>

Arguments:
  <FILE>  Fixture file

Options:
  -h, --help  Print help
"

end Verb

/-- The help text of the program. -/
def helpText : String :=
  about ++ "

Usage: ruletest <COMMAND>

Commands:
  inspect   Parse a fixture file and summarize its test cases
  position  Convert a character offset into a (line, column) position
  offset    Convert a (line, column) position into a character offset
  format    Parse a fixture file and write it back in canonical form to stdout
  help      Print this message or the help of the given subcommand(s)

Options:
  -h, --help     Print help
  -V, --version  Print version
"

/-- The help text of the help command. -/
def helpOfHelpText : String :=
  "Print this message or the help of the given subcommand(s)

Usage: ruletest help [COMMAND]...

Arguments:
  [COMMAND]...  Print help for the subcommand(s)
"

def versionText : String := "ruletest 0.1.0\n"

/-! ## Reading arguments -/

/-- What an argument looks like. -/
inductive Shape where
  /-- Two dashes: everything after them is a value. -/
  | escape
  /-- A long switch, and the value attached to it. -/
  | long (name : String) (value : Option String)
  /-- A row of short switches, told by the first. -/
  | short (letter : Char)
  | value
  deriving DecidableEq, Repr

def Shape.of (arg : String) : Shape :=
  match arg.toList with
  | ['-', '-'] => .escape
  | '-' :: '-' :: rest =>
    match Text.cut? ['='] rest with
    | some (name, attached) => .long (String.ofList name) (some (String.ofList attached))
    | none => .long (String.ofList rest) none
  | '-' :: letter :: _ => .short letter
  | _ => .value

/-- The values a command has taken so far; the newest is not checked yet. -/
structure Taken where
  json : Bool := false
  file : Option String := none
  numbers : List Nat := []
  pending : Option String := none
  deriving DecidableEq, Repr

namespace Taken

/-- How many values have been given. -/
def count (t : Taken) : Nat := t.file.toList.length + t.numbers.length + t.pending.toList.length

/-- Checks the newest value, as the one the command expects there. -/
def settle (verb : Verb) (t : Taken) : Except UsageError Taken :=
  match t.pending with
  | none => .ok t
  | some value =>
    match t.file with
    | none =>
      if value.isEmpty then .error (.emptyValue "FILE")
      else .ok { t with file := some value, pending := none }
    | some _ =>
      match Numeral.readSize value.toList with
      | .ok n => .ok { t with numbers := t.numbers ++ [n], pending := none }
      | .error e =>
        .error (.invalidValue value ((verb.numbers[t.numbers.length]?).getD "") e)

/-- Takes one more value, if the command has a place for it. -/
def take (verb : Verb) (t : Taken) (value : String) : Except UsageError Taken :=
  if t.count < verb.numbers.length + 1 then do
    let settled ← t.settle verb
    return { settled with pending := some value }
  else .error (.unexpectedArgument value)

/-- The command, when all its values are there. -/
def command? (verb : Verb) (t : Taken) : Option Command :=
  match verb, t.file, t.numbers with
  | .inspect, some file, [] => some (.inspect file t.json)
  | .format, some file, [] => some (.format file)
  | .position, some file, [offset] => some (.toPosition file offset)
  | .offset, some file, [line, column] => some (.toOffset file line column)
  | _, _, _ => none

/-- The request, once the arguments are over. -/
def finish (verb : Verb) (t : Taken) : Except UsageError Request := do
  match (← t.settle verb).command? verb with
  | some command => return .run command
  | none => throw .missingArguments

end Taken

/-- A short switch that no command knows. -/
def shortName (c : Char) : String := String.ofList ['-', c]

/-- Reads the arguments of a command. -/
def parseVerb (verb : Verb) (t : Taken) (escaped : Bool) : List String → Except UsageError Request
  | [] => t.finish verb
  | arg :: rest =>
    if escaped then do
      parseVerb verb (← t.take verb arg) true rest
    else
      match Shape.of arg with
      | .escape => parseVerb verb t true rest
      | .value => do parseVerb verb (← t.take verb arg) false rest
      | .short c =>
        if c = 'h' then do
          let _ ← t.settle verb
          return .helpOf verb
        else .error (.unexpectedArgument (shortName c))
      | .long name value =>
        if name = "help" ∨ (name = "json" ∧ verb = .inspect) then
          match value with
          | some value => .error (.unexpectedValue value ("--" ++ name))
          | none => do
            let settled ← t.settle verb
            if name = "help" then return .helpOf verb
            else if settled.json then throw (.repeatedSwitch "--json")
            else parseVerb verb { settled with json := true } false rest
        else .error (.unexpectedArgument ("--" ++ name))

/-- The help that the arguments after `help` ask for. -/
def parseHelp : List String → Except UsageError Request
  | [] => .ok .help
  | [arg] =>
    if arg = "help" then .ok .helpOfHelp
    else
      match Verb.ofName? arg with
      | some verb => .ok (.helpOf verb)
      | none => .error (.unknownCommand arg)
  | arg :: next :: _ =>
    if arg = "help" ∨ (Verb.ofName? arg).isSome then .error (.unknownCommand next)
    else .error (.unknownCommand arg)

/-- Refuses the first argument when it names no command. -/
def refuse (arg : String) (escaped : Bool) : UsageError :=
  if escaped ∧ (arg = "help" ∨ (Verb.ofName? arg).isSome) then .unexpectedArgument arg
  else .unknownCommand arg

/-- Reads the arguments of the program. -/
def parseArguments : List String → Except UsageError Request
  | [] => .error .nothing
  | arg :: rest =>
    if arg = "help" then parseHelp rest
    else
      match Verb.ofName? arg with
      | some verb => parseVerb verb {} false rest
      | none =>
        match Shape.of arg with
        | .escape =>
          match rest with
          | [] => .error .nothing
          | next :: _ => .error (refuse next true)
        | .value => .error (refuse arg false)
        | .short c =>
          if c = 'h' then .ok .help
          else if c = 'V' then .ok .version
          else .error (.unexpectedArgument (shortName c))
        | .long name value =>
          if name = "help" ∨ name = "version" then
            match value with
            | some value => .error (.unexpectedValue value ("--" ++ name))
            | none => .ok (if name = "help" then .help else .version)
          else .error (.unexpectedArgument ("--" ++ name))

/-- What the program leaves behind: what it printed and how it ended. -/
structure Outcome where
  exit : UInt8
  stdout : String := ""
  report : Option Report := none
  stderr : String := ""
  deriving DecidableEq, Repr

/-- Serves a request. An overflow ends the program; what the system says about it is left out. -/
def Request.serve (read : Command.Reader) : Request → Outcome
  | .help => { exit := 0, stdout := helpText }
  | .helpOf verb => { exit := 0, stdout := verb.help }
  | .helpOfHelp => { exit := 0, stdout := helpOfHelpText }
  | .version => { exit := 0, stdout := versionText }
  | .run command =>
    match command.run read with
    | .ok stdout => { exit := 0, stdout }
    | .error (.fault failure) => { exit := 1, report := failure.report?, stderr := failure.display }
    | .error .overflow => { exit := 101 }

/-- The whole program, from its arguments and a way to read files. -/
def runProgram (read : Command.Reader) (args : List String) : Outcome :=
  match parseArguments args with
  | .ok request => request.serve read
  | .error e => { exit := 2, stderr := e.headline }

end LintFixture.Cli
