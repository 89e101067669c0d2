import LintFixture.Grid.Position

/-!
# The cursor

How the position on the grid moves over one character: a line feed opens the
next line, a tab goes on to the next tab stop, a carriage return that belongs to
a line terminator takes no room, and any other character takes one column.
-/

namespace LintFixture.Grid

/-- Columns between two tab stops. -/
def tabWidth : Nat := 8

/-- The column a tab that starts at `column` leads to. -/
def tabStopAfter (column : Nat) : Nat := ((column - 1) / tabWidth + 1) * tabWidth + 1

/-- Whether `c`, followed by `rest`, starts a line terminator. -/
def startsBreak (c : Char) (rest : Text) : Bool :=
  c == '\n' || (c == '\r' && rest.head? == some '\n')

/-- The column after `c` on the same line, with `rest` to follow. -/
def columnPast (column : Nat) (c : Char) (rest : Text) : Nat :=
  if c = '\t' then tabStopAfter column
  else if c = '\r' ∧ rest.head? = some '\n' then column
  else column + 1

namespace Position

/-- Where every text begins. -/
def origin : Position := ⟨1, 1⟩

/-- The position after `c`, with `rest` to follow. -/
def advance (p : Position) (c : Char) (rest : Text) : Position :=
  if c = '\n' then ⟨p.line + 1, 1⟩ else ⟨p.line, columnPast p.column c rest⟩

end Position

end LintFixture.Grid
