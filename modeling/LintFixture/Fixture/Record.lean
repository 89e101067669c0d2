import LintFixture.Fixture.Case
import LintFixture.Json

/-!
# Suites as JSON

The record of a suite that other programs read: every field of every case, in a
fixed order, with the way a violation is located named by its precision.
-/

namespace LintFixture

open Grid Fixture

def Grid.Position.toJson (p : Position) : Json :=
  .obj [("line".toList, .num p.line), ("column".toList, .num p.column)]

/-- The fields of a region. -/
def Grid.Region.fields (r : Region) : List (Text × Json) :=
  [("start".toList, .num r.start), ("end".toList, .num r.stop)]

def Grid.Region.toJson (r : Region) : Json := .obj r.fields

namespace Fixture

def Location.toJson : Location → Json
  | .anywhere => .obj [("precision".toList, .str "unspecified".toList)]
  | .line number region =>
    .obj [("precision".toList, .str "line-only".toList), ("line".toList, .num number),
      ("region".toList, region.toJson)]
  | .exact region => .obj (("precision".toList, .str "exact".toList) :: region.fields)

def Expectation.toJson (e : Expectation) : Json :=
  .obj [("message".toList, .ofOption .str e.message), ("location".toList, e.location.toJson)]

def Properties.toJson (p : Properties) : Json :=
  .obj (p.entries.map fun (name, value) => (name, .str value))

def Case.toJson (c : Case) : Json :=
  .obj [("description".toList, .str c.description),
    ("source".toList, .str c.source),
    ("expected_violations".toList, .arr (c.expectations.map Expectation.toJson)),
    ("properties".toList, c.properties.toJson),
    ("language_version".toList, .ofOption .str c.languageVersion),
    ("reinitialize_rule".toList, .bool c.reinitializeRule),
    ("regression_test".toList, .bool c.regressionTest),
    ("use_aux_classpath".toList, .bool c.useAuxClasspath)]

def Suite.toJson (s : Suite) : Json :=
  .obj [("cases".toList, .arr (s.cases.map Case.toJson))]

end Fixture

end LintFixture
