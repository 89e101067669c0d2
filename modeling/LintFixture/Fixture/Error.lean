import LintFixture.Fixture.Vocabulary
import LintFixture.Markup.Error
import LintFixture.Text.Quoted

/-!
# What can be wrong with a fixture

A fixture may be no document at all, have a root of another name, or hold an
entry that breaks the schema. The first fault ends the reading. So does a count of
violations that no list can hold, which is no fault of the fixture.
-/

namespace LintFixture.Fixture

open Markup

/-- The two lists whose length the number of problems fixes. -/
inductive Listing where
  | messages
  | lines
  deriving DecidableEq, Repr

namespace Listing

/-- The element that holds the list. -/
def element : Listing → Text
  | .messages => Vocabulary.expectedMessages
  | .lines => Vocabulary.expectedLines

def noun : Listing → String
  | .messages => "messages"
  | .lines => "lines"

end Listing

/-- How an entry can break the schema. -/
inductive SchemaFault where
  | missingElement (name : Text)
  | invalidCount (found : Text)
  | invalidLine (found : Text)
  | missingCode
  | missingReference
  | unknownFragment (id : Text)
  | countMismatch (listing : Listing) (declared found : Nat)
  | lineOutside (line lines : Nat)
  | unnamedProperty
  deriving DecidableEq, Repr

def SchemaFault.message : SchemaFault → String
  | .missingElement name => s!"missing required element <{String.ofList name}>"
  | .invalidCount found =>
    "expected-problems must be a non-negative integer, found " ++ String.ofList found.quote
  | .invalidLine found =>
    "expected-linenumbers contains an invalid line number " ++ String.ofList found.quote
  | .missingCode => "missing required element <code> or <code-ref>"
  | .missingReference => "code-ref is missing its id attribute"
  | .unknownFragment id =>
    "code-ref points at unknown code-fragment " ++ String.ofList id.quote
  | .countMismatch listing declared found =>
    s!"expected-problems declares {declared} problems but {String.ofList listing.element}"
      ++ s!" lists {found} {listing.noun}"
  | .lineOutside line lines =>
    s!"expected line {line} is outside of the test source ({lines} lines)"
  | .unnamedProperty => "rule-property is missing its name attribute"

/-- Why a text is no fixture. -/
inductive Error where
  | markup (error : Markup.Error)
  | wrongRoot (found : Text) (span : Span)
  /-- The entry at `index` breaks the schema in the element at `span`. -/
  | schema (index : Nat) (description : Option Text) (span : Span) (fault : SchemaFault)
  deriving DecidableEq, Repr

namespace Error

/-- The description of an entry, as a message names it. -/
def describe : Option Text → String
  | some description => s!" ({String.ofList description.quote})"
  | none => ""

def message : Error → String
  | .markup error => error.message
  | .wrongRoot found _ =>
    s!"expected a <test-data> root element, found <{String.ofList found}>"
  | .schema index description _ fault =>
    s!"test case #{index}" ++ describe description ++ ": " ++ fault.message

/-- Where the fault lies, when it lies somewhere. -/
def span? : Error → Option Span
  | .markup error => error.span?
  | .wrongRoot _ span | .schema _ _ span _ => some span

end Error

/-- Why reading stops before there is a result. -/
inductive Stop (ε : Type) where
  | fault (cause : ε)
  /-- A list would have to be longer than a list can be. -/
  | overflow
  deriving DecidableEq, Repr

/-- The same, with the fault told in other words. -/
def Stop.map {ε δ : Type} (f : ε → δ) : Stop ε → Stop δ
  | .fault cause => .fault (f cause)
  | .overflow => .overflow

end LintFixture.Fixture
