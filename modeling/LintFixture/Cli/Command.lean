import LintFixture.Cli.Report
import LintFixture.Cli.Summary
import LintFixture.Fixture.Record
import LintFixture.Fixture.Schema
import LintFixture.Fixture.Writer

/-!
# Commands

What each command prints, given a way to read files. Nothing here touches the
system: a command is a function from the files to its outcome, which is what it
prints, a failure that is told to the user, or an overflow that ends the program.
-/

namespace LintFixture.Cli

open Fixture Grid

/-- What the program can be told to do. -/
inductive Command where
  | inspect (file : String) (json : Bool)
  | toPosition (file : String) (offset : Nat)
  | toOffset (file : String) (line column : Nat)
  | format (file : String)
  deriving DecidableEq, Repr

/-- Why a file gives no text. -/
inductive ReadError where
  | notFound
  | directory
  | notUtf8
  | other (message : String)
  deriving DecidableEq, Repr

def ReadError.message : ReadError → String
  | .notFound => "No such file or directory (os error 2)"
  | .directory => "Is a directory (os error 21)"
  | .notUtf8 => "stream did not contain valid UTF-8"
  | .other message => message

/-- Why a command fails. -/
inductive Failure where
  | unreadable (file : String) (error : ReadError)
  | invalidFixture (report : Report)
  | noPosition (file : String) (error : CoordError)
  | noOffset (file : String) (error : CoordError)
  | unwritable (file : String) (error : MisplacedRegion)
  deriving DecidableEq, Repr

namespace Failure

/-- The messages of a failure and of its causes, outermost first. -/
def chain : Failure → List String
  | .unreadable file error => ["Failed to read " ++ file, error.message]
  | .invalidFixture report => [report.file ++ " is not a valid rule test fixture"]
  | .noPosition file error => ["No position for offset in " ++ file, error.message]
  | .noOffset file error => ["No offset for position in " ++ file, error.message]
  | .unwritable file error => ["Failed to write " ++ file, error.message]

/-- The report of a fault in a fixture. -/
def report? : Failure → Option Report
  | .invalidFixture report => some report
  | _ => none

/-- The chain as it is shown to the user. -/
def display (f : Failure) : String :=
  match f.chain with
  | [] => ""
  | [outermost] => s!"Error: {outermost}\n"
  | outermost :: causes =>
    s!"Error: {outermost}\n\nCaused by:\n"
      ++ String.join (causes.map fun cause => s!"    {cause}\n")

end Failure

namespace Command

/-- The file a command reads. -/
def file : Command → String
  | .inspect file _ | .toPosition file _ | .toOffset file _ _ | .format file => file

/-- A way to read files. -/
abbrev Reader := String → Except ReadError Text

def readFile (read : Reader) (file : String) : Except (Stop Failure) Text :=
  (read file).mapError fun error => .fault (.unreadable file error)

/-- The suite in a file. -/
def loadSuite (read : Reader) (file : String) : Except (Stop Failure) Suite := do
  let text ← readFile read file
  (Suite.parse text).mapError (Stop.map fun error => .invalidFixture ⟨file, text, error⟩)

/-- What a command prints. -/
def run (read : Reader) : Command → Except (Stop Failure) String
  | .inspect file json => do
    let suite ← loadSuite read file
    return if json then String.ofList suite.toJson.pretty ++ "\n" else summaryOf suite
  | .format file => do
    let suite ← loadSuite read file
    match suite.write with
    | .ok text => return String.ofList text
    | .error error => throw (.fault (.unwritable file error))
  | .toPosition file offset => do
    let text ← readFile read file
    match positionAt text offset with
    | .ok position => return String.ofList position.display ++ "\n"
    | .error error => throw (.fault (.noPosition file error))
  | .toOffset file line column => do
    let text ← readFile read file
    match offsetAt text ⟨line, column⟩ with
    | .ok offset => return s!"{offset}\n"
    | .error error => throw (.fault (.noOffset file error))

end Command

end LintFixture.Cli
