import LintFixture.Grid.Cursor
import LintFixture.Grid.Region

/-!
# Offsets and positions

The conversions between the two ways to name a place in a text. Several columns
may lead to one offset, since a tab covers all columns up to its stop; the column
just past a line leads to its terminator, or to the end of the text.
-/

namespace LintFixture.Grid

/-- The position `offset` characters on, for a cursor at `p` with `text` ahead. -/
def positionFrom (p : Position) : Text → Nat → Option Position
  | _, 0 => some p
  | [], _ + 1 => none
  | c :: rest, n + 1 => positionFrom (p.advance c rest) rest n

/-- The position of the character at `offset`, or of the end of the text. -/
def positionAt (text : Text) (offset : Nat) : Except CoordError Position :=
  match positionFrom .origin text offset with
  | some p => .ok p
  | none => .error (.offsetBeyond offset text.length)

/-- How many characters ahead `target` lies, for a cursor at `p` with `text` ahead. -/
def distance? (target p : Position) : Text → Option Nat
  | [] => if p = target then some 0 else none
  | c :: rest =>
    if target.line < p.line then none
    else if p.line = target.line ∧ startsBreak c rest then
      if target.column = p.column then some 0 else none
    else if p.line = target.line ∧ target.column < columnPast p.column c rest then some 0
    else (distance? target (p.advance c rest) rest).map (· + 1)

/-- The offset of the character that covers a position. -/
def offsetAt (text : Text) (target : Position) : Except CoordError Nat :=
  if target.line = 0 ∨ target.column = 0 then .error (.noSuchPosition target)
  else
    match distance? target .origin text with
    | some offset => .ok offset
    | none => .error (.noSuchPosition target)

/-- The number of lines; the empty text has one. -/
def countLines (text : Text) : Nat := text.count '\n' + 1

/-- The region of a line, terminator included. -/
def regionOfLine (text : Text) (line : Nat) : Except CoordError Region := do
  let start ← offsetAt text ⟨line, 1⟩
  match offsetAt text ⟨line + 1, 1⟩ with
  | .ok next => Region.between start next
  | .error _ => Region.between start text.length

/-- Whether a position of the text falls into the region. -/
def Region.containsCell (r : Region) (text : Text) (p : Position) : Except CoordError Bool := do
  return r.contains (← offsetAt text p)

end LintFixture.Grid
