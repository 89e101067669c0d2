import LintFixture.Grid.Position

/-!
# Coordinates that address nothing

Conversions never clamp: an offset or position outside of the text, and a region
that ends before it starts, are errors that carry the numbers given.
-/

namespace LintFixture.Grid

/-- Why a coordinate is refused. -/
inductive CoordError where
  | offsetBeyond (offset length : Nat)
  | noSuchPosition (position : Position)
  | reversedRegion (start stop : Nat)
  deriving DecidableEq, Repr

namespace CoordError

/-- Whether the coordinate lies outside of the text it was given for. -/
def isOutside : CoordError → Bool
  | .reversedRegion .. => false
  | _ => true

def message : CoordError → String
  | .offsetBeyond offset length =>
    s!"offset {offset} is out of range for a buffer of length {length}"
  | .noSuchPosition p => s!"position {String.ofList p.display} is outside of the buffer"
  | .reversedRegion start stop => s!"invalid region: start {start} is after end {stop}"

end CoordError

end LintFixture.Grid
