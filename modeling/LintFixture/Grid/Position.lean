import LintFixture.Text.Basic
import LintFixture.Text.Blank
import LintFixture.Text.Numeral
import LintFixture.Text.Quoted

/-!
# Positions

A position names a cell of the grid a text is shown on, by line and column, both
counted from 1. It is written `(line, column)`; reading allows blanks around each
part and leaves the parentheses optional, but only together.
-/

namespace LintFixture.Grid

/-- A cell of the grid. -/
structure Position where
  line : Nat
  column : Nat
  deriving DecidableEq, Repr

namespace Position

/-- Earlier lines come first, then smaller columns. -/
instance : LT Position where
  lt p q := p.line < q.line ∨ (p.line = q.line ∧ p.column < q.column)

instance : LE Position where
  le p q := p.line < q.line ∨ (p.line = q.line ∧ p.column ≤ q.column)

instance (p q : Position) : Decidable (p < q) :=
  inferInstanceAs (Decidable (p.line < q.line ∨ (p.line = q.line ∧ p.column < q.column)))

instance (p q : Position) : Decidable (p ≤ q) :=
  inferInstanceAs (Decidable (p.line < q.line ∨ (p.line = q.line ∧ p.column ≤ q.column)))

instance : Ord Position where
  compare p q := (compare p.line q.line).then (compare p.column q.column)

theorem le_refl (p : Position) : p ≤ p := .inr ⟨rfl, Nat.le_refl _⟩

/-- The written form. -/
def display (p : Position) : Text :=
  '(' :: (Text.ofNat p.line ++ [',', ' '] ++ Text.ofNat p.column ++ [')'])

/-- The text between parentheses, if it stands between parentheses. -/
def unwrap? : Text → Option Text
  | '(' :: rest => if rest.getLast? = some ')' then some rest.dropLast else none
  | _ => none

/-- Splits at the first comma. -/
def splitComma? (t : Text) : Option (Text × Text) := Text.cut? [','] t

/-- Reads the two numbers around the first comma. -/
def readPair (t : Text) : Option Position := do
  let (line, column) ← splitComma? t
  let line ← (Numeral.readSize line.trim).toOption
  let column ← (Numeral.readSize column.trim).toOption
  return ⟨line, column⟩

/-- Reads a position; none if the text is not of its form. -/
def parse? (t : Text) : Option Position := readPair ((unwrap? t.trim).getD t.trim)

/-- A text that is no position. -/
structure ParseError where
  input : Text
  deriving DecidableEq, Repr

def ParseError.message (e : ParseError) : String :=
  "cannot parse position from " ++ String.ofList e.input.quote ++ ", expected \"(line, column)\""

/-- Reads a position; the error carries the whole text. -/
def parse (t : Text) : Except ParseError Position :=
  match parse? t with
  | some p => .ok p
  | none => .error ⟨t⟩

end Position

end LintFixture.Grid
