import LintFixture.Text.Basic

/-!
# Vocabulary

The names of the elements and attributes of a fixture, shared by reading and
writing.
-/

namespace LintFixture.Fixture.Vocabulary

def testData : Text := "test-data".toList
def testCode : Text := "test-code".toList
def codeFragment : Text := "code-fragment".toList
def description : Text := "description".toList
def ruleProperty : Text := "rule-property".toList
def expectedProblems : Text := "expected-problems".toList
def expectedLines : Text := "expected-linenumbers".toList
def expectedMessages : Text := "expected-messages".toList
def message : Text := "message".toList
def code : Text := "code".toList
def codeRef : Text := "code-ref".toList
def sourceType : Text := "source-type".toList

def id : Text := "id".toList
def name : Text := "name".toList
def reinitializeRule : Text := "reinitializeRule".toList
def regressionTest : Text := "regressionTest".toList
def useAuxClasspath : Text := "useAuxClasspath".toList

end LintFixture.Fixture.Vocabulary
