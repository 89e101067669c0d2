import LintFixture.Fixture.Snippet

/-!
# The margin of code, in bytes

The margin is the blank start that the lines of code share. Here it is measured in
bytes and the lines are cut by their bytes, from the first line with content to the
last. A place inside a character of a line cuts nothing off.
-/

namespace LintFixture.Fixture.Margin

/-- The characters of a text, each with the number of bytes before it. -/
def places (offset : Nat) : Text → List (Nat × Char)
  | [] => []
  | c :: t => (offset, c) :: places (offset + c.utf8Size) t

/-- The blank start of a line, by the place of its first character that is not blank. -/
def leading? (row : Text) : Option Text :=
  Text.takeBytes? row <|
    ((places 0 row).find? (!Text.isBlank ·.2)).elim (Text.byteLength row) Prod.fst

/-- The bytes before the first place where two texts differ. -/
def sharedLength (s t : Text) : Nat :=
  (((places 0 s).zip t).find? fun ((_, a), b) => a ≠ b).elim
    (min (Text.byteLength s) (Text.byteLength t)) (·.1.1)

/-- The margin with one more line. -/
def narrow? (margin : Option Text) (row : Text) : Option (Option Text) := do
  let leading ← leading? row
  match margin with
  | none => return some leading
  | some margin => return some (← Text.takeBytes? margin (sharedLength margin leading))

/-- Number of bytes of the margin. -/
def width? (rows : List Text) : Option Nat := do
  let margin ← (rows.filter (!Text.allBlank ·)).foldlM narrow? none
  return margin.elim 0 Text.byteLength

/-- Index of the last line with content. -/
def lastContent? (rows : List Text) : Option Nat :=
  (rows.reverse.findIdx? (!Text.allBlank ·)).map (rows.length - 1 - ·)

/-- The lines without their first `width` bytes; blank lines become empty. `otherwise` stands in
for a line that has no place at `width`. -/
def cut? (otherwise : Text → Option Text) (width : Nat) (rows : List Text) : Option (List Text) :=
  rows.mapM fun row =>
    if Text.allBlank row then some [] else (Text.dropBytes? row width).or (otherwise row)

/-- The code in the text of an element, if no place that is cut at lies inside a character. -/
def extract? (otherwise : Text → Option Text) (raw : Text) : Option Text :=
  let rows := Text.lines raw
  match rows.findIdx? (!Text.allBlank ·) with
  | none => some []
  | some first => do
    let last := (lastContent? rows).getD first
    let header := if first = 0 then rows.head?.map Text.trimStart else none
    let body := (rows.take (last + 1)).drop (if header.isSome then 1 else first)
    let dedented ← cut? otherwise (← width? body) body
    return Text.trimEnd (Text.join ['\n'] (header.toList ++ dedented))

end LintFixture.Fixture.Margin
