import LintFixture.Fixture.Properties
import LintFixture.Grid.Region

/-!
# Cases

A case is a piece of code, the violations a rule has to report on it, and the
settings of the rule. A suite is the cases of one fixture, in document order.
-/

namespace LintFixture.Fixture

open Grid

/-- Where a violation has to be reported. -/
inductive Location where
  | anywhere
  /-- On a line counted from 1; the region is that of the whole line. -/
  | line (number : Nat) (region : Region)
  | exact (region : Region)
  deriving DecidableEq, Repr

namespace Location

def region? : Location → Option Region
  | .anywhere => none
  | .line _ region | .exact region => some region

/-- The line that is named; an exact region names none. -/
def line? : Location → Option Nat
  | .line number _ => some number
  | _ => none

def isPlaced : Location → Bool
  | .anywhere => false
  | _ => true

end Location

/-- A violation a rule has to report. -/
structure Expectation where
  message : Option Text
  location : Location
  deriving DecidableEq, Repr

namespace Expectation

/-- The bytes of a violation: three words for its message and four for its location. -/
def size : Nat := 56

/-- How many violations a list can hold. It has `2 ^ 63 - 1` bytes at most. -/
def capacity : Nat := 0x7FFFFFFFFFFFFFFF / size

end Expectation

/-- One entry of a fixture. -/
structure Case where
  description : Text
  source : Text
  expectations : List Expectation := []
  properties : Properties := .empty
  languageVersion : Option Text := none
  reinitializeRule : Bool := true
  regressionTest : Bool := true
  useAuxClasspath : Bool := true
  deriving DecidableEq, Repr

/-- The cases of a fixture. -/
structure Suite where
  cases : List Case
  deriving DecidableEq, Repr

end LintFixture.Fixture
