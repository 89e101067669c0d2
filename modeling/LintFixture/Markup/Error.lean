import LintFixture.Markup.Span
import LintFixture.Text.Numeral

/-!
# What can be wrong with a document

Faults are causes; the wording is in the `message` functions. Offsets inside
attribute and reference faults count from the start of the tag content or of the
raw text, as their messages do.
-/

namespace LintFixture.Markup

/-- What can be wrong with an `&…;` reference. -/
inductive ReferenceFault where
  /-- The name between `start` and `stop` stands for nothing. -/
  | unknown (name : Text) (start stop : Nat)
  /-- No semicolon ends the reference that takes the text from `start` to `stop`. -/
  | unterminated (start stop : Nat)
  /-- The number has a sign. -/
  | sign
  | number (error : NumeralError)
  /-- The number is no code point of a character. -/
  | codePoint (n : Nat)
  /-- The number is zero. -/
  | null
  deriving DecidableEq, Repr

def ReferenceFault.message : ReferenceFault → String
  | .unknown name start stop =>
    s!"at {start}..{stop}: unrecognized entity `{String.ofList name}`"
  | .unterminated start stop =>
    s!"Error while escaping character at range {start}..{stop}: Cannot find ';' after '&'"
  | .sign => "invalid character reference: unexpected number sign"
  | .number error => "invalid character reference: " ++ error.message
  | .codePoint n => s!"invalid character reference: `{n}` is not a valid codepoint"
  | .null => "invalid character reference: 0x0 character is not permitted in XML"

/-- What can be wrong with the attributes of a tag. -/
inductive AttributeFault where
  | missingEquals (offset : Nat)
  | missingValue (offset : Nat)
  | unquotedValue (offset : Nat)
  | missingQuote (offset : Nat) (quote : Char)
  | duplicate (offset earlier : Nat)
  deriving DecidableEq, Repr

def AttributeFault.message : AttributeFault → String
  | .missingEquals offset =>
    s!"position {offset}: attribute key must be directly followed by `=` or space"
  | .missingValue offset => s!"position {offset}: `=` must be followed by an attribute value"
  | .unquotedValue offset =>
    s!"position {offset}: attribute value must be enclosed in `\"` or `'`"
  | .missingQuote offset quote =>
    s!"position {offset}: missing closing quote `{quote}` in attribute value"
  | .duplicate offset earlier =>
    s!"position {offset}: duplicated attribute, previous declaration at position {earlier}"

/-- What can be wrong at one place of a document. -/
inductive Fault where
  | unknownMarkup
  | unclosedInstruction
  | unclosedComment
  | unclosedDoctype
  | unclosedCdata
  | unclosedTag
  | namelessDoctype
  | unmatchedClose (name : Text)
  | mismatchedClose (expected found : Text)
  | attribute (fault : AttributeFault)
  | text (fault : ReferenceFault)
  | value (fault : ReferenceFault)
  deriving DecidableEq, Repr

def Fault.message : Fault → String
  | .unknownMarkup => "syntax error: unknown or missed symbol in markup"
  | .unclosedInstruction =>
    "syntax error: processing instruction or xml declaration not closed: "
      ++ "`?>` not found before end of input"
  | .unclosedComment => "syntax error: comment not closed: `-->` not found before end of input"
  | .unclosedDoctype => "syntax error: DOCTYPE not closed: `>` not found before end of input"
  | .unclosedCdata => "syntax error: CDATA not closed: `]]>` not found before end of input"
  | .unclosedTag => "syntax error: tag not closed: `>` not found before end of input"
  | .namelessDoctype =>
    "ill-formed document: `<!DOCTYPE>` declaration does not contain a name of a document type"
  | .unmatchedClose name =>
    s!"ill-formed document: close tag `</{String.ofList name}>` does not match any open tag"
  | .mismatchedClose expected found =>
    s!"ill-formed document: expected `</{String.ofList expected}>`, "
      ++ s!"but `</{String.ofList found}>` was found"
  | .attribute fault => "Attribute error: " ++ fault.message
  | .text fault => "Invalid text content: " ++ fault.message
  | .value fault => "Invalid attribute value: " ++ fault.message

/-- Why a text is not a document. -/
inductive Error where
  | malformed (position : Nat) (fault : Fault)
  /-- The element of that name is still open at the end. -/
  | unclosed (name : Text) (span : Span)
  | secondRoot (span : Span)
  | noRoot
  deriving DecidableEq, Repr

namespace Error

/-- Where the fault lies, when it lies somewhere. -/
def span? : Error → Option Span
  | .malformed position _ => some ⟨position, position⟩
  | .unclosed _ span | .secondRoot span => some span
  | .noRoot => none

def message : Error → String
  | .malformed position fault => s!"XML syntax error at byte {position}: " ++ fault.message
  | .unclosed name _ =>
    s!"Unexpected end of input, expected closing tag </{String.ofList name}>"
  | .secondRoot _ => "Invalid XML: multiple root elements"
  | .noRoot => "Empty XML document: no root element found"

end Error

end LintFixture.Markup
