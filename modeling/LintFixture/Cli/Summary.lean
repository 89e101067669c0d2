import LintFixture.Fixture.Case

/-!
# Summaries

What `inspect` prints about a suite: for each case its description, the number of
problems and their places, and the settings that differ from the usual ones.
-/

namespace LintFixture.Cli

open Fixture

/-- A location in words. -/
def placeText : Location → String
  | .anywhere => "anywhere"
  | .line number _ => s!"line {number}"
  | .exact region => "region " ++ region.display

def expectationLine (e : Expectation) : String :=
  "    - " ++ placeText e.location ++
    match e.message with
    | some message => ": " ++ String.ofList message
    | none => ""

/-- The settings of a case that are off. -/
def disabledSettings (c : Case) : List String :=
  [(c.reinitializeRule, "reinitializeRule"), (c.regressionTest, "regressionTest"),
    (c.useAuxClasspath, "useAuxClasspath")].filterMap
      fun (on, name) => if on then none else some name

/-- The lines about the case at `index`. -/
def caseLines (c : Case) (index : Nat) : List String :=
  [s!"#{index} " ++ String.ofList c.description,
    s!"    expected problems: {c.expectations.length}"]
  ++ c.expectations.map expectationLine
  ++ c.properties.entries.map (fun (name, value) =>
      "    property " ++ String.ofList name ++ " = " ++ String.ofList value)
  ++ (c.languageVersion.map fun version => "    source type: " ++ String.ofList version).toList
  ++ match disabledSettings c with
    | [] => []
    | names => ["    disabled: " ++ ", ".intercalate names]

/-- The summary of a suite. -/
def summaryOf (s : Suite) : String :=
  String.join <|
    (s.cases.zipIdx.flatMap fun (c, index) => caseLines c index).map (· ++ "\n")

end LintFixture.Cli
