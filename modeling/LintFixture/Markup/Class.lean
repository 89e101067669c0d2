import LintFixture.Text.Basic

/-!
# Character classes of markup

Between the parts of a tag only four characters are blank, fewer than those that
count as blank in text.
-/

namespace LintFixture.Markup

/-- Space, tab, line feed and carriage return. -/
def isGap (c : Char) : Bool := c == ' ' || c == '\t' || c == '\n' || c == '\r'

/-- The marks that enclose an attribute value. -/
def isQuote (c : Char) : Bool := c == '\x22' || c == '\x27'

/-- Whether a character may follow the first one of an attribute key. -/
def continuesKey (c : Char) : Bool := c != '=' && !isGap c

end LintFixture.Markup
