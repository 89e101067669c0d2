import LintFixture.Fixture.Error
import LintFixture.Text.Blank
import LintFixture.Text.Columns
import LintFixture.Text.Lines

/-!
# Reports

A report shows a fault at its place in the fixture: the message, the line and
column, and the source line with the faulty range underlined. Spans count bytes;
a report counts characters.
-/

namespace LintFixture.Cli

open Markup

/-- How many characters stand before a byte offset; all of them if it is no character boundary. -/
def charsBefore (t : Text) (offset : Nat) : Nat :=
  match t.takeBytes? offset with
  | some before => before.length
  | none => t.length

/-- The characters a span covers, from the first up to, not including, the last number. -/
def charRange (t : Text) (span : Span) : Nat × Nat :=
  let start := charsBefore t span.start
  (start, max (charsBefore t span.stop) start)

/-- Whether a character ends a line on a page. -/
def endsLine (c : Char) : Bool :=
  let n := c.toNat
  (0x0A ≤ n && n ≤ 0x0D) || n == 0x85 || n == 0x2028 || n == 0x2029

/-- The lines of a page with their ends; a carriage return and the line feed after it end one
line together. -/
def pageLines : Text → List Text
  | [] => []
  | c :: rest =>
    if endsLine c && !(c == '\r' && rest.head? == some '\n') then [c] :: pageLines rest
    else
      match pageLines rest with
      | [] => [[c]]
      | line :: others => (c :: line) :: others

/-- A place on a page: the number of its line, the offset within the line, and the line. -/
structure PagePlace where
  line : Nat
  offset : Nat
  text : Text
  deriving DecidableEq, Repr

/-- Finds an offset among lines that are counted from `number`; the end of the text belongs to
the last line. -/
def locateIn (number offset : Nat) : List Text → PagePlace
  | [] => ⟨number, offset, []⟩
  | [line] => ⟨number, offset, line⟩
  | line :: others =>
    if offset < line.length then ⟨number, offset, line⟩
    else locateIn (number + 1) (offset - line.length) others

def locate (t : Text) (offset : Nat) : PagePlace := locateIn 1 offset (pageLines t)

/-- A fault of the fixture in a file. -/
structure Report where
  file : String
  text : Text
  error : Fixture.Error
  deriving DecidableEq, Repr

namespace Report

def headline (r : Report) : String := "Error: " ++ r.error.message

/-- What is written next to the marked range. -/
def label (r : Report) : String :=
  match r.error with
  | .markup _ => "here"
  | .wrongRoot .. => "expected <test-data>"
  | .schema _ _ _ fault => fault.message

/-- The line that names the file and the place of the fault. -/
def locationLine (file : String) (place : PagePlace) : String :=
  s!"╭─[{file}:{place.line}:{place.offset + 1}]"

/-- Whether a line names the place of a fault. -/
def namesPlace (line : Text) : Bool := (Text.strip? ['╭', '─', '['] line).isSome

/-- The lines up to the first that names a place, that one included. -/
def throughPlace : List Text → List Text
  | [] => []
  | line :: others => if namesPlace line then [line] else line :: throughPlace others

/-- The headline and the place, every line without blanks around it. -/
def summary (r : Report) : String :=
  match r.error.span? with
  | none => r.headline ++ "\n"
  | some span =>
    let place := locate r.text (charRange r.text span).1
    let written := r.headline ++ "\n" ++ locationLine r.file place
    String.ofList <|
      Text.join ['\n'] (throughPlace ((Text.lines written.toList).map Text.trim))

/-! ## Drawings -/

def rule (n : Nat) : String := "".pushn '─' n

def space (n : Nat) : String := "".pushn ' ' n

/-- How many columns a character of a drawn line fills: a tab goes on to the next multiple of four
of its own index, and a blank fills one. -/
def drawnColumns (index : Nat) (c : Char) : Nat :=
  if c = '\t' then 4 - index % 4 else if Text.isBlank c then 1 else Text.columns c

/-- A drawn character: a blank is drawn by spaces. -/
def drawn (index : Nat) (c : Char) : Text :=
  if Text.isBlank c then List.replicate (drawnColumns index c) ' ' else [c]

/-- A sign drawn under a character: `first` in the first of its columns, `other` in the rest. -/
structure Stroke where
  first : Char
  other : Char
  deriving DecidableEq, Repr

namespace Stroke

def blank : Stroke := ⟨' ', ' '⟩

def line : Stroke := ⟨'─', '─'⟩

def spread (s : Stroke) : Nat → Text
  | 0 => []
  | n + 1 => s.first :: List.replicate n s.other

end Stroke

/-- The strokes under `count` characters from the one at `index` on, the first of the text; past
its end a character is taken to fill one column. -/
def underlay (stroke : Nat → Stroke) (index : Nat) : Nat → Text → Text
  | 0, _ => []
  | count + 1, [] => (stroke index).spread 1 ++ underlay stroke (index + 1) count []
  | count + 1, c :: rest =>
    (stroke index).spread (drawnColumns index c) ++ underlay stroke (index + 1) count rest

/-- The part of a line that is marked, from `start` up to, not including, `stop`. -/
structure Mark where
  start : Nat
  stop : Nat
  deriving DecidableEq, Repr

namespace Mark

/-- The character that the label hangs from. -/
def middle (m : Mark) : Nat := (m.start + m.stop) / 2

/-- The line under the marked characters; an empty mark is a bar. -/
def bar (m : Mark) (index : Nat) : Stroke :=
  if index = m.middle then if m.start < m.stop then ⟨'┬', '─'⟩ else ⟨'│', ' '⟩
  else if m.start ≤ index ∧ index < m.stop then .line
  else .blank

/-- The hook that leads from the middle to the label. -/
def hook (m : Mark) (index : Nat) : Stroke :=
  if index < m.middle then .blank else if index = m.middle then ⟨'╰', '─'⟩ else .line

end Mark

/-- The whole drawing of a fault; of a range that goes on, the part on its first line is marked. -/
def drawing (r : Report) : String :=
  match r.error.span? with
  | none => r.headline ++ "\n"
  | some span =>
    let (start, stop) := charRange r.text span
    let place := locate r.text start
    let number := toString place.line
    let margin := number.length + 2
    let source := Text.trimEnd place.text
    let mark : Mark :=
      ⟨place.offset, min (place.offset + (stop - start)) (max place.text.length place.offset)⟩
    let under (stroke : Nat → Stroke) : String :=
      String.ofList (underlay stroke 0 (mark.stop + 2) source)
    String.join <| [
      r.headline,
      space margin ++ locationLine r.file place,
      space margin ++ "│",
      " " ++ number ++ " │ " ++ String.ofList (source.mapIdx drawn).flatten,
      space margin ++ "│ " ++ under mark.bar,
      space margin ++ "│ " ++ under mark.hook ++ " " ++ r.label,
      rule margin ++ "╯"].map (· ++ "\n")

end Report

end LintFixture.Cli
