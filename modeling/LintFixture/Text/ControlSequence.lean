import LintFixture.Text.Basic

/-!
# Control sequences

A terminal takes some characters as orders and does not show them: the controls,
and the sequences that open with the escape character. A message that quotes
what a user typed shows only the rest, so that it cannot give such orders.
Blank controls move on a page and are kept. Inside a sequence a blank control
opens a gap: it is shown with all up to the next control, and there the sequence
goes on, unless the gap held a character beyond ASCII, which ends the sequence.
-/

namespace LintFixture.Text

/-- What a terminal is reading. -/
inductive Mode where
  | page
  /-- After the escape character. -/
  | escape
  /-- After the escape character and a mark that calls for one more character. -/
  | selection
  /-- Parameters, up to a letter. -/
  | parameters
  /-- The head of a string for the device, at its start. -/
  | deviceHead
  /-- The numbers in that head. -/
  | deviceNumbers
  /-- The marks after the numbers. -/
  | deviceMarks
  /-- A string, up to its terminator. -/
  | string
  /-- A string that a bell ends too. -/
  | title
  deriving DecidableEq, Repr

/-- The controls that move on a page. -/
def isBlankControl (c : Char) : Bool := c == '\t' || c == '\n' || c == '\u000C' || c == '\r'

/-- The characters that a page shows. -/
def isShown (c : Char) : Bool := isBlankControl c || (0x20 ≤ c.toNat && c.toNat != 0x7F)

/-- Whether the string terminator, a single byte, is part of the UTF-8 form of a character. It can
only be one of the bytes after the first, each of which holds six bits. -/
def holdsTerminator (c : Char) : Bool :=
  let n := c.toNat
  0x80 ≤ n &&
    (n % 0x40 == 0x1C || (0x800 ≤ n && n / 0x40 % 0x40 == 0x1C)
      || (0x10000 ≤ n && n / 0x1000 % 0x40 == 0x1C))

namespace Mode

/-- What the character after the escape character opens. -/
def opened (c : Char) : Mode :=
  if c = '[' then parameters
  else if c = ']' then title
  else if c = 'P' then deviceHead
  else if c = 'X' ∨ c = '^' ∨ c = '_' then string
  else page

/-- How a terminal goes on after a character it does not show; none if it shows the character. -/
def next? (mode : Mode) (c : Char) : Option Mode :=
  let n := c.toNat
  if n = 0x1B then some escape
  else if n = 0x18 ∨ n = 0x1A then some page
  else
    match mode with
    | page => if isShown c then none else some page
    | escape =>
      if isBlankControl c then none
      else if 0x20 ≤ n ∧ n < 0x30 then some selection
      else if 0x30 ≤ n ∧ n < 0x7F then some (opened c)
      else some escape
    | selection =>
      if isBlankControl c then none else if 0x30 ≤ n ∧ n < 0x7F then some page else some selection
    | parameters =>
      if isBlankControl c then none else if 0x40 ≤ n ∧ n < 0x7F then some page else some parameters
    | deviceHead =>
      if 0x40 ≤ n ∧ n < 0x7F then some string
      else if 0x30 ≤ n ∧ n < 0x40 then some deviceNumbers
      else if 0x20 ≤ n ∧ n < 0x30 then some deviceMarks
      else some deviceHead
    | deviceNumbers =>
      if 0x3C ≤ n ∧ n < 0x7F then some string
      else if 0x20 ≤ n ∧ n < 0x30 then some deviceMarks
      else some deviceNumbers
    | deviceMarks => if 0x30 ≤ n ∧ n < 0x7F then some string else some deviceMarks
    | string => if holdsTerminator c then some page else some string
    | title => if n = 0x07 then some page else some title

/-- What a terminal is reading after it has shown a character. -/
def afterShown (mode : Mode) (c : Char) : Mode := if c.toNat < 0x80 then mode else page

/-- What a terminal that is in a mode shows of a text; `flowing` says that it has just shown a
character, and so shows the next one if a page would. -/
def shown (mode : Mode) (flowing : Bool) : Text → Text
  | [] => []
  | c :: rest =>
    if flowing && isShown c then c :: shown (mode.afterShown c) true rest
    else
      match mode.next? c with
      | some next => shown next false rest
      | none => c :: shown (mode.afterShown c) true rest

end Mode

/-- The text without the controls and the control sequences in it. -/
def plain (t : Text) : Text := Mode.page.shown false t

example : plain ['a', '\u001B', '[', '1', 'm', 'b', '\u0007', '\r'] = ['a', 'b', '\r'] := by decide

example : plain ['\u001B', ']', '0', ';', 't', '\u0007', 'z', '\u001B'] = ['z'] := by decide

example : plain ['\u001B', '[', '\t', 'a', '\u0008', '1', 'm', 'b'] = ['\t', 'a', 'b'] := by decide

end LintFixture.Text
