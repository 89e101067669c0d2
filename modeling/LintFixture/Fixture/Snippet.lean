import LintFixture.Text.Blank
import LintFixture.Text.Lines

/-!
# Snippets

Code stands in a fixture further in than its own lines say. Extraction takes the
blank start that all lines share away again and drops blank lines around the
code; indenting is the way back. Code that begins on the line of the opening tag
has no fixture indentation there, so that line is left out of the shared start.
-/

namespace LintFixture.Fixture.Snippet

/-- The longest common start of two texts. -/
def commonStart : Text → Text → Text
  | a :: s, b :: t => if a = b then a :: commonStart s t else []
  | _, _ => []

/-- The blank start that all lines with content share. -/
def indentOf (rows : List Text) : Text :=
  match (rows.filter (!Text.allBlank ·)).map (·.takeWhile Text.isBlank) with
  | [] => []
  | first :: others => others.foldl commonStart first

/-- The lines without their shared blank start; blank lines become empty. -/
def dedent (rows : List Text) : List Text :=
  let width := (indentOf rows).length
  rows.map fun row => if Text.allBlank row then [] else row.drop width

/-- The lines of the code in the text of an element. -/
def extractRows (raw : Text) : List Text :=
  match Text.lines raw with
  | [] => []
  | first :: others =>
    if Text.allBlank first then dedent (others.dropWhile Text.allBlank)
    else Text.trimStart first :: dedent others

/-- The code in the text of an element. -/
def extract (raw : Text) : Text := Text.trimEnd (Text.join ['\n'] (extractRows raw))

/-- What is put before a line of code in a fixture. -/
def rowIndent : Text := List.replicate 12 ' '

/-- What is put before the end of a block of code in a fixture. -/
def endIndent : Text := List.replicate 8 ' '

/-- The code with every line further in; blank lines become empty. -/
def indent (source : Text) : Text :=
  Text.join ['\n'] <|
    (Text.lines (Text.trimEnd source)).map fun row =>
      if Text.allBlank row then [] else rowIndent ++ row

/-- The code as it stands between the tags of a fixture. -/
def block (source : Text) : Text := '\n' :: indent source ++ '\n' :: endIndent

end LintFixture.Fixture.Snippet
