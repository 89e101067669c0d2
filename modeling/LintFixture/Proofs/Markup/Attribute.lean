import LintFixture.Proofs.Markup.Slice

/-!
# The places of attributes

What a span covers is a part of a text that stands at a known offset
(`Span.Covers`). The content of a tag is its name and, one after the other, its
attributes (`Attributes`), and their spans cover them (`Tag.exists_of_read`,
`Attributes.covers`).
-/

namespace LintFixture.Markup

open Text (byteLength)

/-! ## What a span covers -/

/-- The span is that of a part of a text which begins at `offset`. -/
def Span.Covers (s : Span) (offset : Nat) (t part : Text) : Prop :=
  ∃ before after, t = before ++ part ++ after ∧
    s = ⟨offset + byteLength before, offset + byteLength before + byteLength part⟩

namespace Span.Covers

variable {s : Span} {offset : Nat} {t part : Text}

theorem whole (offset : Nat) (t : Text) : Covers ⟨offset, offset + byteLength t⟩ offset t t :=
  ⟨[], [], by simp, rfl⟩

theorem prepend {first : Nat} (front : Text) (h : s.Covers offset t part)
    (hoffset : offset = first + byteLength front) : s.Covers first (front ++ t) part := by
  obtain ⟨before, after, rfl, rfl⟩ := h
  exact ⟨front ++ before, after, by simp, by simp [hoffset, Nat.add_assoc]⟩

theorem append (h : s.Covers offset t part) (back : Text) : s.Covers offset (t ++ back) part := by
  obtain ⟨before, after, rfl, rfl⟩ := h
  exact ⟨before, after ++ back, by simp, rfl⟩

theorem ordered (h : s.Covers offset t part) : s.start ≤ s.stop := by
  obtain ⟨before, after, -, rfl⟩ := h
  exact Nat.le_add_right _ _

theorem offset_le (h : s.Covers offset t part) : offset ≤ s.start := by
  obtain ⟨before, after, -, rfl⟩ := h
  exact Nat.le_add_right _ _

theorem stop_le (h : s.Covers offset t part) : s.stop ≤ offset + byteLength t := by
  obtain ⟨before, after, rfl, rfl⟩ := h
  simp only [Text.byteLength_append]
  omega

/-- Counted from the start of the text, the span slices it to the part. -/
theorem slice? (h : s.Covers 0 t part) : s.slice? t = some part := by
  obtain ⟨before, after, rfl, rfl⟩ := h
  rw [Span.slice?, Nat.zero_add]
  exact Text.sliceBytes?_append before part after

end Span.Covers

/-- In a text that begins at `offset`, the spans cover parts one behind the other. -/
structure Laid (offset : Nat) (t : Text) (spans : List Span) : Prop where
  covers : ∀ s ∈ spans, ∃ part, s.Covers offset t part
  ordered : spans.Pairwise fun s r => s.stop ≤ r.start

namespace Laid

variable {offset : Nat} {t : Text} {spans : List Span}

theorem nil (offset : Nat) (t : Text) : Laid offset t [] := ⟨List.forall_mem_nil _, .nil⟩

/-- Text in front that none of the spans covers. -/
theorem skip {first : Nat} (front : Text) (h : Laid offset t spans) (hoffset : offset = first + byteLength front) :
    Laid first (front ++ t) spans where
  covers := by
    intro s hs
    obtain ⟨part, hpart⟩ := h.covers s hs
    exact ⟨part, hpart.prepend front hoffset⟩
  ordered := h.ordered

/-- Text in front that one more span covers. -/
theorem cons {first : Nat} {s : Span} (front : Text) (h : Laid offset t spans)
    (hoffset : offset = first + byteLength front) (hs : s = ⟨first, offset⟩) :
    Laid first (front ++ t) (s :: spans) where
  covers := by
    subst hs hoffset
    exact List.forall_mem_cons.2 ⟨⟨front, (Span.Covers.whole first front).append t⟩, (h.skip front rfl).covers⟩
  ordered := by
    refine List.pairwise_cons.2 ⟨?_, h.ordered⟩
    intro r hr
    obtain ⟨part, hpart⟩ := h.covers r hr
    rw [hs]
    exact hpart.offset_le

theorem append (h : Laid offset t spans) (back : Text) : Laid offset (t ++ back) spans where
  covers := by
    intro s hs
    obtain ⟨part, hpart⟩ := h.covers s hs
    exact ⟨part, hpart.append back⟩
  ordered := h.ordered

theorem sublist {some : List Span} (h : Laid offset t spans) (hsome : some.Sublist spans) : Laid offset t some :=
  ⟨fun s hs => h.covers s (hsome.subset hs), h.ordered.sublist hsome⟩

end Laid

/-! ## Reading one attribute -/

/-- All characters are gaps between the parts of a tag. -/
def IsGapText (t : Text) : Prop := ∀ c ∈ t, isGap c = true

/-- Skipping passes over a run of characters and stands behind it, at the first other one. -/
theorem Place.exists_skip (p : Char → Bool) (here : Place) :
    ∃ run, (∀ c ∈ run, p c = true) ∧ here.ahead = run ++ (here.skip p).ahead ∧
      (here.skip p).offset = here.offset + byteLength run ∧ ∀ c, (here.skip p).ahead.head? = some c → p c = false := by
  refine ⟨here.ahead.takeWhile p, fun _ hc => List.mem_takeWhile_imp hc, List.takeWhile_append_dropWhile.symm, rfl, ?_⟩
  intro c hc
  have hnot := List.head?_dropWhile_not p here.ahead
  rwa [show (here.ahead.dropWhile p).head? = some c from hc] at hnot

theorem utf8Size_of_isQuote {c : Char} (h : isQuote c = true) : c.utf8Size = 1 := by
  simp only [isQuote, Bool.or_eq_true, beq_iff_eq] at h
  rcases h with rfl | rfl <;> rfl

theorem byteLength_quoted {quote : Char} (h : isQuote quote = true) (raw : Text) :
    byteLength (quote :: raw ++ [quote]) = byteLength raw + 2 := by
  simp only [List.cons_append, Text.byteLength_cons, Text.byteLength_append, Text.byteLength_nil, utf8Size_of_isQuote h]
  omega

namespace RawAttribute

theorem exists_of_afterEquals {here place : Place} (h : afterEquals here = .ok place) :
    ∃ gap, IsGapText gap ∧ here.ahead = gap ++ '=' :: place.ahead ∧
      place.offset = here.offset + byteLength gap + 1 := by
  obtain ⟨gap, hgap, hahead, hoffset, -⟩ := here.exists_skip isGap
  unfold afterEquals at h
  split at h
  · next rest hrest =>
    cases h
    exact ⟨gap, hgap, by rw [hahead, hrest], by rw [hoffset]⟩
  · cases h

theorem exists_of_readValue {here after : Place} {quote : Char} {raw : Text} {offset : Nat}
    (h : readValue here = .ok (quote, raw, offset, after)) :
    ∃ gap, IsGapText gap ∧ here.ahead = gap ++ quote :: (raw ++ quote :: after.ahead) ∧ isQuote quote = true ∧
      quote ∉ raw ∧ offset = here.offset + byteLength gap ∧ after.offset = offset + byteLength raw + 2 := by
  obtain ⟨gap, hgap, hahead, hoffset, -⟩ := here.exists_skip isGap
  unfold readValue at h
  simp only at h
  split at h
  · cases h
  · next first rest hfirst =>
    split at h
    · next hquote =>
      split at h
      · cases h
      · next last behind hlast =>
        obtain ⟨inside, hinside, hrest, hclosing, hstop⟩ :=
          (⟨(here.skip isGap).offset + 1, rest⟩ : Place).exists_skip (· != first)
        -- what ends the value is the character that the skip stopped at
        obtain rfl : last = first := by simpa using hstop last (by rw [hlast]; rfl)
        rw [hlast] at hrest
        change rest = inside ++ last :: behind at hrest
        have hraw : rest.takeWhile (· != last) = inside := by
          rw [hrest, List.takeWhile_append_of_pos hinside, List.takeWhile_cons_of_neg (by simp), List.append_nil]
        rw [hclosing, hraw] at h
        cases h
        refine ⟨gap, hgap, by rw [hahead, hfirst, hrest], hquote, ?_, hoffset, by simp only; omega⟩
        exact fun hmem => by simpa using hinside _ hmem
    · cases h

theorem isGapText_of_read?_none {seen : List (Text × Nat)} {here : Place} (h : read? seen here = .ok none) :
    IsGapText here.ahead := by
  obtain ⟨gap, hgap, hahead, -⟩ := here.exists_skip isGap
  unfold read? at h
  simp only at h
  split at h
  · next hend =>
    rw [hahead, hend, List.append_nil]
    exact hgap
  · obtain ⟨place, -, h⟩ := bind_eq_ok_iff.1 h
    obtain ⟨-, -, h⟩ := bind_eq_ok_iff.1 h
    obtain ⟨value, -, h⟩ := bind_eq_ok_iff.1 h
    cases h

/-- What stands between two places is a gap, the attribute's key, `equals` with the gaps around it and the
quoted value. -/
structure Between (here after : Place) (a : RawAttribute) (gap equals : Text) : Prop where
  isGap : IsGapText gap
  key : a.key ≠ []
  sign : ∃ left right, IsGapText left ∧ IsGapText right ∧ equals = left ++ '=' :: right
  quote : isQuote a.quote = true
  raw : a.quote ∉ a.raw
  ahead : here.ahead = gap ++ a.key ++ equals ++ a.quote :: a.raw ++ a.quote :: after.ahead
  keyOffset : a.keyOffset = here.offset + byteLength gap
  valueOffset : a.valueOffset = a.keyOffset + byteLength a.key + byteLength equals
  offset : after.offset = a.valueOffset + byteLength a.raw + 2

theorem exists_between_of_read? {seen : List (Text × Nat)} {here after : Place} {a : RawAttribute}
    (h : read? seen here = .ok (some (a, after))) : ∃ gap equals, a.Between here after gap equals := by
  obtain ⟨gap, hgap, hahead, hoffset, -⟩ := here.exists_skip isGap
  unfold read? at h
  simp only at h
  split at h
  · cases h
  · next first rest hfirst =>
    obtain ⟨others, hothers, hrest, hkey, hstop⟩ :=
      (⟨(here.skip isGap).offset + first.utf8Size, rest⟩ : Place).exists_skip continuesKey
    obtain ⟨place, hequals, h⟩ := bind_eq_ok_iff.1 h
    obtain ⟨-, -, h⟩ := bind_eq_ok_iff.1 h
    obtain ⟨⟨quote, raw, valueOffset, behind⟩, hvalue, h⟩ := bind_eq_ok_iff.1 h
    cases h
    obtain ⟨left, hleft, haheadLeft, hoffsetLeft⟩ := exists_of_afterEquals hequals
    obtain ⟨right, hright, haheadRight, hquote, hraw, hoffsetRight, hafter⟩ := exists_of_readValue hvalue
    change rest = _ at hrest
    -- the key that is kept is the run that was skipped
    have htake : rest.takeWhile continuesKey = others := by
      rw [hrest]
      exact Text.takeWhile_run_append hothers hstop
    rw [haheadLeft, haheadRight] at hrest
    refine ⟨gap, left ++ '=' :: right, hgap, by simp, ⟨left, right, hleft, hright, rfl⟩, hquote, hraw, ?_, hoffset,
      ?_, hafter⟩
    · rw [htake]
      simp only [hahead, hfirst, hrest, List.append_assoc, List.cons_append]
    · simp only [htake, hoffsetRight, hoffsetLeft, hkey, Text.byteLength_cons, Text.byteLength_append,
        show '='.utf8Size = 1 from rfl]
      omega

end RawAttribute

/-! ## All attributes of a tag -/

/-- The spans of the name and the value. -/
def Attribute.spans (a : Attribute) : List Span := [a.nameSpan, a.valueSpan]

/-- The text that begins at `offset` is the attributes, one after the other, with gaps between them. -/
inductive Attributes : Nat → Text → List Attribute → Prop
  | nil {offset : Nat} {gap : Text} (hgap : IsGapText gap) : Attributes offset gap []
  | cons {offset start valueStart : Nat} {gap key equals raw value rest : Text} {quote : Char} {others : List Attribute}
    (hgap : IsGapText gap) (hkey : key ≠ [])
    (hequals : ∃ left right, IsGapText left ∧ IsGapText right ∧ equals = left ++ '=' :: right)
    (hquote : isQuote quote = true) (hraw : quote ∉ raw) (hvalue : unescape raw = .ok value)
    (hstart : start = offset + byteLength gap) (hvalueStart : valueStart = start + byteLength key + byteLength equals)
    (hothers : Attributes (valueStart + byteLength raw + 2) rest others) :
    Attributes offset (gap ++ key ++ equals ++ quote :: raw ++ quote :: rest)
      (⟨Name.ofText key, ⟨start, start + byteLength key⟩, value, ⟨valueStart, valueStart + byteLength raw + 2⟩⟩ ::
        others)

theorem attributes_of_readAttributes {base : Nat} {seen : List (Text × Nat)} {here : Place}
    {attributes : List Attribute} (h : readAttributes base seen here = .ok attributes) :
    Attributes (base + here.offset) here.ahead attributes := by
  fun_induction readAttributes base seen here generalizing attributes with
  | case1 => cases h
  | case2 seen here hread =>
    cases h
    exact .nil (RawAttribute.isGapText_of_read?_none hread)
  | case3 => cases h
  | case4 seen here raw after hread first hresolve ih =>
    obtain ⟨others, hothers, h⟩ := bind_eq_ok_iff.1 h
    obtain ⟨value, hvalue, hfirst⟩ := bind_eq_ok_iff.1 hresolve
    cases h
    cases hfirst
    obtain ⟨gap, equals, hb⟩ := RawAttribute.exists_between_of_read? hread
    have hlater := ih hothers
    have hoffset : base + after.offset = base + raw.valueOffset + byteLength raw.raw + 2 := by
      rw [hb.offset]
      omega
    rw [hoffset] at hlater
    rw [hb.ahead]
    refine .cons hb.isGap hb.key hb.sign hb.quote hb.raw hvalue ?_ ?_ hlater
    · rw [hb.keyOffset, Nat.add_assoc]
    · rw [hb.valueOffset, Nat.add_assoc, Nat.add_assoc, Nat.add_assoc]

namespace Attributes

variable {offset : Nat} {t : Text} {attributes : List Attribute}

/-- The spans of an attribute cover its name, and its value with the quotes. -/
theorem covers (h : Attributes offset t attributes) :
    ∀ a ∈ attributes, a.nameSpan.Covers offset t a.name.text ∧
      ∃ quote raw, a.valueSpan.Covers offset t (quote :: raw ++ [quote]) ∧ isQuote quote = true ∧ quote ∉ raw ∧
        unescape raw = .ok a.value := by
  induction h with
  | nil => exact List.forall_mem_nil _
  | @cons offset start valueStart gap key equals raw value rest quote others _ _ _ hquote hraw hvalue hstart hvalueStart
      _ ih =>
    have hquoted := byteLength_quoted hquote raw
    have htext : gap ++ key ++ equals ++ quote :: raw ++ quote :: rest =
        gap ++ (key ++ (equals ++ (quote :: raw ++ [quote] ++ rest))) := by simp
    -- what is covered from the quoted value on is covered in the whole text
    have hout : ∀ {s : Span} {part : Text}, s.Covers valueStart (quote :: raw ++ [quote] ++ rest) part →
        s.Covers offset (gap ++ (key ++ (equals ++ (quote :: raw ++ [quote] ++ rest)))) part :=
      fun hs => ((hs.prepend equals hvalueStart).prepend key rfl).prepend gap hstart
    have hbehind : valueStart + byteLength raw + 2 = valueStart + byteLength (quote :: raw ++ [quote]) := by omega
    rw [htext]
    refine List.forall_mem_cons.2 ⟨⟨?_, quote, raw, ?_, hquote, hraw, hvalue⟩, ?_⟩
    · rw [Name.text_ofText]
      exact ((Span.Covers.whole start key).append _).prepend gap hstart
    · rw [hbehind]
      exact hout ((Span.Covers.whole valueStart _).append rest)
    · intro a ha
      obtain ⟨hname, quote', raw', hvalue', hother⟩ := ih a ha
      exact ⟨hout (hname.prepend _ hbehind), quote', raw', hout (hvalue'.prepend _ hbehind), hother⟩

/-- The names and values stand one behind the other. -/
theorem laid (h : Attributes offset t attributes) : Laid offset t (attributes.flatMap Attribute.spans) := by
  induction h with
  | nil => exact Laid.nil _ _
  | @cons offset start valueStart gap key equals raw value rest quote others _ _ _ hquote _ _ hstart hvalueStart
      _ ih =>
    have hquoted := byteLength_quoted hquote raw
    have hvalue : Laid valueStart (quote :: raw ++ [quote] ++ rest)
        (⟨valueStart, valueStart + byteLength raw + 2⟩ :: others.flatMap Attribute.spans) :=
      ih.cons _ (by omega) rfl
    have hname : Laid start (key ++ (equals ++ (quote :: raw ++ [quote] ++ rest)))
        (⟨start, start + byteLength key⟩ :: ⟨valueStart, valueStart + byteLength raw + 2⟩ ::
          others.flatMap Attribute.spans) :=
      (hvalue.skip equals hvalueStart).cons key rfl rfl
    simpa [Attribute.spans] using hname.skip gap hstart

end Attributes

/-- The content of a tag is the name and the attributes. -/
theorem Tag.exists_of_read {base : Nat} {content : Text} {tag : Tag} (h : Tag.read base content = .ok tag) :
    ∃ rest, content = tag.name.text ++ rest ∧ tag.nameSpan = ⟨base, base + byteLength tag.name.text⟩ ∧
      Attributes (base + byteLength tag.name.text) rest tag.attributes := by
  obtain ⟨attributes, hattributes, h⟩ := bind_eq_ok_iff.1 h
  cases h
  obtain ⟨name, hname, hcontent, hoffset, hstop⟩ := (⟨0, content⟩ : Place).exists_skip continuesName
  change content = _ at hcontent
  have htake : content.takeWhile continuesName = name := by
    rw [hcontent]
    exact Text.takeWhile_run_append hname hstop
  have hread := attributes_of_readAttributes hattributes
  rw [hoffset, Nat.zero_add] at hread
  rw [htake, Name.text_ofText]
  exact ⟨_, hcontent, rfl, hread⟩

/-- The spans of the name and of all attributes. -/
def Tag.spans (tag : Tag) : List Span :=
  tag.nameSpan :: tag.attributes.flatMap Attribute.spans

theorem Tag.laid_of_read {base : Nat} {content : Text} {tag : Tag} (h : Tag.read base content = .ok tag) :
    Laid base content tag.spans := by
  obtain ⟨rest, hcontent, hname, hattributes⟩ := exists_of_read h
  rw [hcontent]
  exact hattributes.laid.cons tag.name.text rfl hname

end LintFixture.Markup
