import LintFixture.Fixture.Case
import LintFixture.Json
import LintFixture.Text.Quoted

/-!
# Verdicts

What a rule reported is held against what a case expects. Both sides are put in
source order and compared pair by pair; the first pair that disagrees decides.
-/

namespace LintFixture.Fixture

open Grid

/-- A violation a rule reported. The line is the one it begins on, counted from 1. -/
structure Finding where
  region : Region
  line : Nat
  message : Option Text
  deriving DecidableEq, Repr

/-- Findings come by line, then by region. -/
def Finding.precedes (a b : Finding) : Bool :=
  a.line < b.line || (a.line == b.line && decide (a.region ≤ b.region))

/-- Expectations come by region; those without one come first. -/
def Expectation.precedes (a b : Expectation) : Bool :=
  match a.location.region?, b.location.region? with
  | none, _ => true
  | some _, none => false
  | some r, some s => decide (r ≤ s)

/-- How findings can miss the expectations. -/
inductive Discrepancy where
  | count (expected actual : Nat)
  /-- The finding that starts at `offset` is not where it has to be. -/
  | position (offset : Nat)
  | message (offset : Nat) (expected actual : Text)
  deriving DecidableEq, Repr

def Discrepancy.text : Discrepancy → String
  | .count expected actual => s!"Expected {expected} violations, actual {actual}"
  | .position offset => s!"Wrong position for node at offset {offset}"
  | .message offset expected actual =>
    s!"Wrong message at offset {offset}: expected " ++ String.ofList expected.quote
      ++ ", actual " ++ String.ofList actual.quote

namespace Expectation

/-- Whether a finding starts in the expected region and on the expected line. -/
def placed (e : Expectation) (f : Finding) : Bool :=
  e.location.region?.all (·.contains f.region.start) && e.location.line?.all (· == f.line)

/-- How a finding misses an expectation, if it does. -/
def discrepancy? (e : Expectation) (f : Finding) : Option Discrepancy :=
  if e.placed f then
    match e.message, f.message with
    | some expected, some actual =>
      if expected = actual then none else some (.message f.region.start expected actual)
    | _, _ => none
  else some (.position f.region.start)

end Expectation

/-- The first way in which findings miss the expectations of a case. -/
def Case.discrepancy? (c : Case) (findings : List Finding) : Option Discrepancy :=
  if c.expectations.length ≠ findings.length then
    some (.count c.expectations.length findings.length)
  else
    ((c.expectations.mergeSort Expectation.precedes).zip
      (findings.mergeSort Finding.precedes)).findSome? fun (e, f) => e.discrepancy? f

/-- The state of a test. -/
inductive Status where
  | pass
  | fail
  /-- The rule could not be run. -/
  | error
  /-- Not run yet. -/
  | unknown
  deriving DecidableEq, Repr

def Status.text : Status → String
  | .pass => "pass"
  | .fail => "fail"
  | .error => "error"
  | .unknown => "unknown"

/-- The outcome of a test. -/
structure Verdict where
  status : Status := .unknown
  message : Option String := none
  deriving DecidableEq, Repr

namespace Verdict

def pass : Verdict := ⟨.pass, none⟩
def fail (message : String) : Verdict := ⟨.fail, some message⟩
def error (message : String) : Verdict := ⟨.error, some message⟩

def isPass (v : Verdict) : Bool := v.status == .pass

def toJson (v : Verdict) : Json :=
  .obj [("status".toList, .str v.status.text.toList),
    ("message".toList, .ofOption (fun m => .str m.toList) v.message)]

end Verdict

/-- Judges what a rule reported on a case. -/
def Case.judge (c : Case) (findings : List Finding) : Verdict :=
  match c.discrepancy? findings with
  | none => .pass
  | some discrepancy => .fail discrepancy.text

end LintFixture.Fixture
