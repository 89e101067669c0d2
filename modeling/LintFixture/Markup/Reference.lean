import LintFixture.Markup.Error

/-!
# References

Text and attribute values write a character as `&name;`, `&#decimal;` or
`&#xhex;`. Resolving goes from left to right and stops at the first reference
that stands for nothing.
-/

namespace LintFixture.Markup.Reference

/-- The largest number a character reference is read as: all of 32 bits. -/
def maxCode : Nat := 0xFFFFFFFF

/-- The character of a numbered reference, from its digits. -/
def numbered (base : Nat) (digits : Text) : Except ReferenceFault Char :=
  match digits with
  | '+' :: _ | '-' :: _ => .error .sign
  | _ =>
    match Numeral.read base maxCode digits with
    | .error e => .error (.number e)
    | .ok n =>
      if n = 0 then .error .null
      else if h : n.isValidChar then .ok (Char.ofNatAux n h)
      else .error (.codePoint n)

/-- The character of a named reference. -/
def named? (name : Text) : Option Char :=
  if name = "lt".toList then some '<'
  else if name = "gt".toList then some '>'
  else if name = "amp".toList then some '&'
  else if name = "apos".toList then some '\x27'
  else if name = "quot".toList then some '\x22'
  else none

/-- What stands between `&` and `;`, read as a character; `start` is its offset. -/
def resolve (start : Nat) (body : Text) : Except ReferenceFault Char :=
  match body with
  | '#' :: 'x' :: digits => numbered 16 digits
  | '#' :: digits => numbered 10 digits
  | name =>
    match named? name with
    | some c => .ok c
    | none => .error (.unknown name start (start + Text.byteLength name))

/-- Whether a character may stand inside a reference. -/
def isInside (c : Char) : Bool := c != '&' && c != ';'

/-- The text with all references from `offset` on resolved. -/
def expand (offset : Nat) : Text → Except ReferenceFault Text
  | [] => .ok []
  | c :: rest =>
    if c = '&' then
      let body := rest.takeWhile isInside
      match _h : rest.dropWhile isInside with
      | ';' :: after => do
        let character ← resolve (offset + 1) body
        let tail ← expand (offset + 1 + Text.byteLength body + 1) after
        return character :: tail
      | _ => .error (.unterminated offset (offset + Text.byteLength (c :: rest)))
    else do
      let tail ← expand (offset + c.utf8Size) rest
      return c :: tail
termination_by t => t.length
decreasing_by
  · have := (List.dropWhile_suffix (l := rest) isInside).length_le
    rw [_h] at this
    simp only [List.length_cons] at this ⊢
    omega
  · simp

end Reference

/-- The text with every reference replaced by its character. -/
def unescape (raw : Text) : Except ReferenceFault Text := Reference.expand 0 raw

/-- The written form of a character inside text or an attribute value. -/
def escapeChar (c : Char) : Text :=
  if c = '<' then "&lt;".toList
  else if c = '>' then "&gt;".toList
  else if c = '&' then "&amp;".toList
  else if c = '\x27' then "&apos;".toList
  else if c = '\x22' then "&quot;".toList
  else [c]

/-- The written form of a text. -/
def escape (t : Text) : Text := t.flatMap escapeChar

end LintFixture.Markup
