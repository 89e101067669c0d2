import LintFixture.Text.Basic

/-!
# Blank characters

A character is blank if it has the Unicode property White_Space. Trimming and
every test for blank lines use this one class; the markup reader has a narrower
one of its own.
-/

namespace LintFixture.Text

/-- The characters with the property White_Space. -/
def isBlank (c : Char) : Bool :=
  let n := c.toNat
  (0x09 ≤ n && n ≤ 0x0D) || n == 0x20 || n == 0x85 || n == 0xA0 || n == 0x1680
    || (0x2000 ≤ n && n ≤ 0x200A) || n == 0x2028 || n == 0x2029 || n == 0x202F || n == 0x205F
    || n == 0x3000

theorem isBlank_of_isWhitespace {c : Char} (h : c.isWhitespace = true) : isBlank c = true := by
  simp only [Char.isWhitespace, Bool.or_eq_true, decide_eq_true_eq] at h
  rcases h with ((rfl | rfl) | rfl) | rfl <;> decide

/-- No character of the text stands out. -/
def allBlank (t : Text) : Bool := t.all isBlank

def trimStart (t : Text) : Text := t.dropWhile isBlank

def trimEnd (t : Text) : Text := t.dropEndWhile isBlank

/-- The text without blanks at either end. -/
def trim (t : Text) : Text := trimEnd (trimStart t)

end LintFixture.Text
