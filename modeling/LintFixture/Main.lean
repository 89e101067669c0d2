import LintFixture.Cli.Usage

/-!
# The program

Reads the file that the arguments name, prints what the command gives and ends
with its exit code. All decisions are in `runProgram`.
-/

open LintFixture LintFixture.Cli

/-- The text of a file of the system. -/
def readSystemFile (file : String) : IO (Except ReadError Text) := do
  try
    let bytes ← IO.FS.readBinFile file
    return match String.fromUTF8? bytes with
      | some s => .ok s.toList
      | none => .error .notUtf8
  catch
    | .noFileOrDirectory .. => return .error .notFound
    | .inappropriateType .. => return .error .directory
    | e => return .error (.other (toString e))

/-- The files that the arguments name, by name. -/
def readNamedFiles (args : List String) : IO Command.Reader := do
  match parseArguments args with
  | .ok (.run command) =>
    let content ← readSystemFile command.file
    return fun file => if file = command.file then content else .error .notFound
  | _ => return fun _ => .error .notFound

def main (args : List String) : IO UInt32 := do
  let outcome := runProgram (← readNamedFiles args) args
  IO.print outcome.stdout
  if let some report := outcome.report then
    IO.eprint report.drawing
  unless outcome.stderr.isEmpty do
    IO.eprint (outcome.stderr.trimAsciiEnd.copy ++ "\n")
  return outcome.exit.toUInt32
