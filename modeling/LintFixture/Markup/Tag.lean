import LintFixture.Markup.Class
import LintFixture.Markup.Reference
import LintFixture.Steps

/-!
# Tags

The content of a tag is the element's name and its attributes. Every name and
value knows its span in the document.
-/

namespace LintFixture.Markup

/-- A name, split at its first colon. -/
structure Name where
  qualifier : Option Text
  localPart : Text
  deriving DecidableEq, Repr

namespace Name

def ofText (t : Text) : Name :=
  match Text.cut? [':'] t with
  | some (qualifier, localPart) => ⟨some qualifier, localPart⟩
  | none => ⟨none, t⟩

/-- The name as written. -/
def text (n : Name) : Text :=
  match n.qualifier with
  | some qualifier => qualifier ++ ':' :: n.localPart
  | none => n.localPart

end Name

/-- An attribute; `valueSpan` includes the quotes. -/
structure Attribute where
  name : Name
  nameSpan : Span
  value : Text
  valueSpan : Span
  deriving DecidableEq, Repr

/-- An attribute as written. The offsets are those of the key and of the opening quote. -/
structure RawAttribute where
  key : Text
  keyOffset : Nat
  quote : Char
  raw : Text
  valueOffset : Nat
  deriving DecidableEq, Repr

namespace RawAttribute

/-- The place after the equals sign that must follow a key. -/
def afterEquals (here : Place) : Except AttributeFault Place :=
  match (here.skip isGap).ahead with
  | '=' :: rest => .ok ⟨(here.skip isGap).offset + 1, rest⟩
  | _ => .error (.missingEquals (here.skip isGap).offset)

/-- Reads a quoted value: its quote, what stands inside, where it began and the place after it. -/
def readValue (here : Place) : Except AttributeFault (Char × Text × Nat × Place) :=
  let start := here.skip isGap
  match start.ahead with
  | [] => .error (.missingValue start.offset)
  | quote :: rest =>
    if isQuote quote then
      let inside : Place := ⟨start.offset + 1, rest⟩
      let closing := inside.skip (· != quote)
      match closing.ahead with
      | [] => .error (.missingQuote closing.offset quote)
      | _ :: after =>
        .ok (quote, rest.takeWhile (· != quote), start.offset, ⟨closing.offset + 1, after⟩)
    else .error (.unquotedValue start.offset)

/-- A key that stands among the keys before it is a fault. -/
def checkFresh (seen : List (Text × Nat)) (key : Text) (offset : Nat) :
    Except AttributeFault Unit :=
  match seen.lookup key with
  | some earlier => .error (.duplicate offset earlier)
  | none => .ok ()

/-- Reads one attribute; none if only gaps are left. `seen` holds the keys before it. -/
def read? (seen : List (Text × Nat)) (here : Place) :
    Except AttributeFault (Option (RawAttribute × Place)) :=
  let start := here.skip isGap
  match start.ahead with
  | [] => .ok none
  | c :: rest => do
    let key := c :: rest.takeWhile continuesKey
    let afterKey : Place := (⟨start.offset + c.utf8Size, rest⟩ : Place).skip continuesKey
    let place ← afterEquals afterKey
    checkFresh seen key start.offset
    let (quote, raw, valueOffset, after) ← readValue place
    return some (⟨key, start.offset, quote, raw, valueOffset⟩, after)

theorem length_lt_of_afterEquals {here place : Place} (h : afterEquals here = .ok place) :
    place.ahead.length < here.ahead.length := by
  have := here.length_ahead_skip_le isGap
  unfold afterEquals at h
  split at h
  · next rest hr =>
    obtain rfl := Except.ok.inj h
    rw [hr, List.length_cons] at this
    exact this
  · cases h

theorem length_lt_of_readValue {here after : Place} {q : Char} {raw : Text} {o : Nat}
    (h : readValue here = .ok (q, raw, o, after)) : after.ahead.length < here.ahead.length := by
  have h₁ := here.length_ahead_skip_le isGap
  unfold readValue at h
  simp only at h
  split at h
  · cases h
  · next quote rest hr =>
    rw [hr, List.length_cons] at h₁
    split at h
    · split at h
      · cases h
      · next d tail ht =>
        have h₂ := Place.length_ahead_skip_le (· != quote) ⟨(here.skip isGap).offset + 1, rest⟩
        rw [ht, List.length_cons] at h₂
        simp only [Except.ok.injEq, Prod.mk.injEq] at h
        obtain ⟨_, _, _, rfl⟩ := h
        simp only at h₂ ⊢
        omega
    · cases h

theorem length_lt_of_read? {seen : List (Text × Nat)} {here after : Place} {a : RawAttribute}
    (h : read? seen here = .ok (some (a, after))) : after.ahead.length < here.ahead.length := by
  have h₁ := here.length_ahead_skip_le isGap
  unfold read? at h
  simp only at h
  split at h
  · cases h
  · next c rest hr =>
    rw [hr, List.length_cons] at h₁
    have h₂ := Place.length_ahead_skip_le continuesKey ⟨(here.skip isGap).offset + c.utf8Size, rest⟩
    obtain ⟨place, he, h⟩ := bind_eq_ok_iff.1 h
    obtain ⟨_, _, h⟩ := bind_eq_ok_iff.1 h
    obtain ⟨⟨q, raw, o, p⟩, hv, h⟩ := bind_eq_ok_iff.1 h
    simp only [pure, Except.pure, Except.ok.injEq, Option.some.injEq, Prod.mk.injEq] at h
    obtain ⟨_, rfl⟩ := h
    have h₃ := length_lt_of_afterEquals he
    have h₄ := length_lt_of_readValue hv
    simp only at h₂
    omega

/-- The attribute with its value resolved, in a tag whose content starts at `base`. -/
def resolve (base : Nat) (a : RawAttribute) : Except ReferenceFault Attribute := do
  let value ← unescape a.raw
  let keyStart := base + a.keyOffset
  let valueStart := base + a.valueOffset
  return {
    name := Name.ofText a.key
    nameSpan := ⟨keyStart, keyStart + Text.byteLength a.key⟩
    value
    valueSpan := ⟨valueStart, valueStart + Text.byteLength a.raw + 2⟩ }

end RawAttribute

/-- Reads the attributes from a place inside a tag whose content starts at `base`; each one is
resolved before the next is read. -/
def readAttributes (base : Nat) (seen : List (Text × Nat)) (here : Place) :
    Except Fault (List Attribute) :=
  match _h : RawAttribute.read? seen here with
  | .error e => .error (.attribute e)
  | .ok none => .ok []
  | .ok (some (raw, after)) =>
    match raw.resolve base with
    | .error e => .error (.value e)
    | .ok first => do
      let others ← readAttributes base ((raw.key, raw.keyOffset) :: seen) after
      return first :: others
termination_by here.ahead.length
decreasing_by exact RawAttribute.length_lt_of_read? _h

/-- The name and attributes of an element. -/
structure Tag where
  name : Name
  nameSpan : Span
  attributes : List Attribute
  deriving DecidableEq, Repr

/-- Whether a character stays in the name of a tag. -/
def continuesName (c : Char) : Bool := !isGap c

/-- Reads the content of an open or empty tag that starts at `base`. -/
def Tag.read (base : Nat) (content : Text) : Except Fault Tag := do
  let name := content.takeWhile continuesName
  let attributes ← readAttributes base [] ((⟨0, content⟩ : Place).skip continuesName)
  return ⟨Name.ofText name, ⟨base, base + Text.byteLength name⟩, attributes⟩

/-- The value of the first attribute with that local name. -/
def Tag.attribute? (tag : Tag) (name : Text) : Option Text :=
  (tag.attributes.find? (·.name.localPart = name)).map (·.value)

end LintFixture.Markup
