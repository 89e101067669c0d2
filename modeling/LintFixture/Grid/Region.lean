import LintFixture.Grid.Error

/-!
# Regions

A region is a half-open range of character offsets. That it does not end before
it starts is part of the type.
-/

namespace LintFixture.Grid

/-- The offsets from `start` up to, not including, `stop`. -/
structure Region where
  start : Nat
  stop : Nat
  start_le_stop : start ≤ stop
  deriving DecidableEq, Repr

namespace Region

/-- The region between two offsets, when they are in order. -/
def between (start stop : Nat) : Except CoordError Region :=
  if h : start ≤ stop then .ok ⟨start, stop, h⟩ else .error (.reversedRegion start stop)

/-- The empty region at an offset. -/
def emptyAt (offset : Nat) : Region := ⟨offset, offset, Nat.le_refl _⟩

def length (r : Region) : Nat := r.stop - r.start

def isEmpty (r : Region) : Bool := r.start == r.stop

def contains (r : Region) (offset : Nat) : Bool := r.start ≤ offset && offset < r.stop

/-- Whether `s` lies within `r`. -/
def covers (r s : Region) : Bool := r.start ≤ s.start && s.stop ≤ r.stop

/-- Regions come by start, then by stop. -/
instance : LE Region where
  le r s := r.start < s.start ∨ (r.start = s.start ∧ r.stop ≤ s.stop)

instance (r s : Region) : Decidable (r ≤ s) :=
  inferInstanceAs (Decidable (r.start < s.start ∨ (r.start = s.start ∧ r.stop ≤ s.stop)))

/-- The written form. -/
def display (r : Region) : String := s!"[{r.start}, {r.stop})"

end Region

end LintFixture.Grid
