import LintFixture.Text.Basic
import LintFixture.Text.Unprintable

/-!
# Quoted text

Messages show a piece of input between double quotes. Quotes, backslashes and
the common control characters get short escapes, any other character that does
not print is written by its code point, and all else stands for itself.
-/

namespace LintFixture.Text

/-- The form of one character inside quotes. -/
def quoteChar (c : Char) : Text :=
  if c = '"' then ['\\', '"']
  else if c = '\\' then ['\\', '\\']
  else if c = '\n' then ['\\', 'n']
  else if c = '\r' then ['\\', 'r']
  else if c = '\t' then ['\\', 't']
  else if c.toNat = 0 then ['\\', '0']
  else if isUnprintable c then ['\\', 'u', '\x7b'] ++ Nat.toDigits 16 c.toNat ++ ['\x7d']
  else [c]

/-- The text between double quotes, escaped. -/
def quote (t : Text) : Text := '"' :: (t.flatMap quoteChar ++ ['"'])

end LintFixture.Text
