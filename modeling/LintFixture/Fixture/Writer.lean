import LintFixture.Fixture.Case
import LintFixture.Fixture.Snippet
import LintFixture.Fixture.Vocabulary
import LintFixture.Grid.Coordinates
import LintFixture.Markup.Sheet

/-!
# Writing a suite

The canonical fixture of a suite. Line numbers are written only when every
violation of a case has a location, messages only when every one has a message;
an exact region is written as the line it starts on.
-/

namespace LintFixture.Fixture

open Grid Markup

/-- A region that does not start inside the code of the case at `index`. -/
structure MisplacedRegion where
  index : Nat
  cause : CoordError
  deriving DecidableEq, Repr

def MisplacedRegion.message (e : MisplacedRegion) : String :=
  s!"test case #{e.index}: " ++ e.cause.message

/-- The line a location names, or starts on. -/
def Location.lineIn (source : Text) : Location → Except CoordError (Option Nat)
  | .anywhere => .ok none
  | .line number _ => .ok (some number)
  | .exact region => do return some (← positionAt source region.start).line

namespace Case

/-- The lines to list, if every violation has a location. -/
def listedLines (c : Case) : Except CoordError (Option (List Nat)) :=
  if c.expectations.isEmpty || !c.expectations.all (·.location.isPlaced) then .ok none
  else do
    let lines ← c.expectations.mapM (·.location.lineIn c.source)
    return some (lines.filterMap id)

/-- The messages to list, if every violation has one. -/
def listedMessages (c : Case) : Option (List Text) :=
  (c.expectations.mapM Expectation.message).filter (!·.isEmpty)

/-- The attributes of an entry: the settings that are off. -/
def offSettings (c : Case) : List Text :=
  [(c.reinitializeRule, Vocabulary.reinitializeRule), (c.regressionTest, Vocabulary.regressionTest),
    (c.useAuxClasspath, Vocabulary.useAuxClasspath)].filterMap
      fun (on, name) => if on then none else some name

/-- The parts of the entry of a case, given the lines to list. -/
def parts (c : Case) (lines : Option (List Nat)) : List Sheet :=
  [.text Vocabulary.description [] c.description]
  ++ c.properties.entries.map (fun (name, value) => .text Vocabulary.ruleProperty [(Vocabulary.name, name)] value)
  ++ [.text Vocabulary.expectedProblems [] (Text.ofNat c.expectations.length)]
  ++ (lines.map fun lines => .text Vocabulary.expectedLines [] (Text.join [','] (lines.map Text.ofNat))).toList
  ++ (c.listedMessages.map fun messages =>
      .group Vocabulary.expectedMessages [] (messages.map (.text Vocabulary.message []))).toList
  ++ [.cdata Vocabulary.code [] (Sheet.sections (Snippet.block c.source))]
  ++ (c.languageVersion.map (.text Vocabulary.sourceType [])).toList

/-- The entry of a case, given the lines to list. -/
def sheetWith (c : Case) (lines : Option (List Nat)) : Sheet :=
  .group Vocabulary.testCode (c.offSettings.map fun name => (name, "false".toList)) (c.parts lines)

/-- The entry of the case at `index`. -/
def sheet (c : Case) (index : Nat) : Except MisplacedRegion Sheet :=
  match c.listedLines with
  | .ok lines => .ok (c.sheetWith lines)
  | .error cause => .error ⟨index, cause⟩

end Case

namespace Suite

def namespaceUri : Text := "http://pmd.sourceforge.net/rule-tests".toList
def instanceUri : Text := "http://www.w3.org/2001/XMLSchema-instance".toList
def schemaLocation : Text :=
  "http://pmd.sourceforge.net/rule-tests http://pmd.sourceforge.net/rule-tests_1_0_0.xsd".toList

/-- The attributes of the root. -/
def rootAttributes : List (Text × Text) :=
  [("xmlns".toList, namespaceUri), ("xmlns:xsi".toList, instanceUri),
    ("xsi:schemaLocation".toList, schemaLocation)]

/-- The root element of a suite. -/
def sheet (s : Suite) : Except MisplacedRegion Sheet := do
  let entries ← s.cases.zipIdx.mapM fun (c, index) => c.sheet index
  return .group Vocabulary.testData rootAttributes entries

/-- The canonical fixture. -/
def write (s : Suite) : Except MisplacedRegion Text := s.sheet.map Sheet.document

end Suite

end LintFixture.Fixture
