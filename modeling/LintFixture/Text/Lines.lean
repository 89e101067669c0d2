import LintFixture.Text.Basic

/-!
# Lines

A line ends at a line feed; one carriage return just before it belongs to the
terminator. Elsewhere a carriage return is an ordinary character, also at the
very end of the text. A final terminator opens no further line.
-/

namespace LintFixture.Text

/-- The lines of a text, without their terminators. -/
def lines : Text → List Text
  | [] => []
  | c :: rest =>
    if c = '\n' then [] :: lines rest
    else if c = '\r' ∧ rest.head? = some '\n' then lines rest
    else
      match lines rest with
      | [] => [[c]]
      | line :: others => (c :: line) :: others

example : lines ['a', '\r', '\n', '\n', 'b', '\n'] = [['a'], [], ['b']] := by decide

example : lines ['a', '\n', 'b', '\r'] = [['a'], ['b', '\r']] := by decide

end LintFixture.Text
