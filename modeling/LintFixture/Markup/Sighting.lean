import LintFixture.Markup.Tag
import LintFixture.Text.Blank

/-!
# Attributes, looked up in their tag

The spans of an attribute can be found without the offsets that were met in reading:
its key is looked up in what follows the attribute before it, and the value behind
the key. Blank is here what is blank in text. Where a key or a quoted value is not
met, the search answers with a place nearby.
-/

namespace LintFixture.Markup

/-- What the search for an attribute meets. -/
inductive Met where
  | noKey
  /-- Only blanks, or an equals sign among them, follow the key. -/
  | noValue
  /-- What follows does not begin with a quote. -/
  | unquoted
  /-- The quote that follows is the last of its kind. -/
  | unclosed
  | quoted
  deriving DecidableEq, Repr

/-- The spans that the search for an attribute answers with. -/
structure Sighting where
  met : Met
  keySpan : Span
  valueSpan : Span
  deriving DecidableEq, Repr

namespace Sighting

/-- Whether a character stays in a value without quotes. -/
def continuesBare (c : Char) : Bool := !(Text.isBlank c || c == '>' || c == '/')

/-- Looks up the value behind a key; `stop` is where the key stops and `behind` what follows it. -/
def ofKey (keySpan : Span) (behind : Text) : Sighting :=
  let trimmed := Text.trimStart behind
  let value := Text.trimStart ((Text.strip? ['='] trimmed).getD trimmed)
  let start := keySpan.stop + (Text.byteLength behind - Text.byteLength value)
  match value with
  | [] => ⟨.noValue, keySpan, keySpan⟩
  | first :: rest =>
    if isQuote first then
      match Text.cut? [first] rest with
      | some (raw, _) => ⟨.quoted, keySpan, ⟨start, start + Text.byteLength raw + 2⟩⟩
      | none => ⟨.unclosed, keySpan, ⟨start, start + 1⟩⟩
    else
      ⟨.unquoted, keySpan, ⟨start, start + Text.byteLength (value.takeWhile continuesBare)⟩⟩

/-- Looks up a key in a content that begins at `base`, from its byte `start` on. -/
def look (base : Nat) (content : Text) (start : Nat) (key : Text) : Sighting :=
  match Text.cut? key ((Text.dropBytes? content start).getD []) with
  | none => ⟨.noKey, ⟨base, base + 1⟩, ⟨base, base + 1⟩⟩
  | some (before, behind) =>
    let keyStart := base + start + Text.byteLength before
    ofKey ⟨keyStart, keyStart + Text.byteLength key⟩ behind

/-- Looked up too early, a key is met in the value of another attribute. -/
example : look 1 "a n='b c' b=''".toList 1 ['b'] = ⟨.unquoted, ⟨6, 7⟩, ⟨8, 10⟩⟩ := by decide

end Sighting

/-- What looking up all attributes of a tag gives: a sighting for each, up to the first fault. -/
structure Lookup where
  sightings : List Sighting
  attributes : Except Fault (List Attribute)

/-- Reads the attributes of a content that begins at `base`, and looks each one up from byte `start` on
before the next is read. -/
def lookUpAttributes (base : Nat) (content : Text) (start : Nat) (seen : List (Text × Nat)) (here : Place) : Lookup :=
  match _h : RawAttribute.read? seen here with
  | .error e => ⟨[], .error (.attribute e)⟩
  | .ok none => ⟨[], .ok []⟩
  | .ok (some (raw, after)) =>
    match unescape raw.raw with
    | .error e => ⟨[], .error (.value e)⟩
    | .ok value =>
      let s := Sighting.look base content start raw.key
      let first : Attribute := ⟨Name.ofText raw.key, s.keySpan, value, s.valueSpan⟩
      let later := lookUpAttributes base content (max (s.valueSpan.stop - base) start)
        ((raw.key, raw.keyOffset) :: seen) after
      ⟨s :: later.sightings, later.attributes.map (first :: ·)⟩
termination_by here.ahead.length
decreasing_by exact RawAttribute.length_lt_of_read? _h

/-- Looks up the attributes of an open or empty tag whose content starts at `base`. -/
def Tag.lookUp (base : Nat) (content : Text) : Lookup :=
  lookUpAttributes base content (Text.byteLength (content.takeWhile continuesName)) []
    ((⟨0, content⟩ : Place).skip continuesName)

end LintFixture.Markup
