import LintFixture.Markup.Sighting
import LintFixture.Proofs.Markup.Geometry

/-!
# The places of attributes, looked up

An attribute that was read stands first among what its key is looked up in, and its
value is the first behind it. So looking up the attributes of a tag meets every one
with its quoted value, and gives what reading gives (`Tag.finds_lookUp`). The spans
of the attributes of a document are those of its text (`Document.pointed_of_parse`).
-/

namespace LintFixture.Markup

open Text (byteLength)
open Token (sources)

/-! ## Gaps are blank -/

theorem isBlank_of_isGap {c : Char} (h : isGap c = true) : Text.isBlank c = true := by
  simp only [isGap, Bool.or_eq_true, beq_iff_eq] at h
  rcases h with ((rfl | rfl) | rfl) | rfl <;> rfl

theorem isBlank_of_isQuote {c : Char} (h : isQuote c = true) : Text.isBlank c = false := by
  simp only [isQuote, Bool.or_eq_true, beq_iff_eq] at h
  rcases h with rfl | rfl <;> rfl

/-- The gap before a part of a tag is all that is trimmed. -/
theorem IsGapText.trimStart_append {gap : Text} {c : Char} (h : IsGapText gap) (hc : Text.isBlank c = false)
    (rest : Text) :
    Text.trimStart (gap ++ c :: rest) = c :: rest :=
  Text.dropWhile_run_append (fun d hd => isBlank_of_isGap (h d hd)) (by rintro _ ⟨⟩; exact hc)

/-! ## Looking up one attribute -/

namespace RawAttribute

variable {seen : List (Text × Nat)} {here after : Place} {a : RawAttribute} {gap equals front content : Text}

theorem exists_key_of_read? (h : read? seen here = .ok (some (a, after))) :
    ∃ first others, a.key = first :: others ∧ isGap first = false := by
  obtain ⟨gap, -, -, -, hstop⟩ := here.exists_skip isGap
  unfold read? at h
  simp only at h
  split at h
  · cases h
  · next first rest hfirst =>
    obtain ⟨place, -, h⟩ := bind_eq_ok_iff.1 h
    obtain ⟨-, -, h⟩ := bind_eq_ok_iff.1 h
    obtain ⟨value, -, h⟩ := bind_eq_ok_iff.1 h
    cases h
    exact ⟨first, _, rfl, hstop first (by rw [hfirst]; rfl)⟩

/-- Only the references in its value keep an attribute from being resolved. -/
theorem unescape_of_resolve_error {base : Nat} {e : ReferenceFault} (h : a.resolve base = .error e) :
    unescape a.raw = .error e := by
  unfold resolve at h
  cases hvalue : unescape a.raw with
  | error fault =>
    rw [hvalue] at h
    cases h
    rfl
  | ok value =>
    rw [hvalue] at h
    cases h

/-- Behind the key of an attribute its value is met. -/
theorem Between.ofKey_eq (hb : a.Between here after gap equals) (keySpan : Span) :
    Sighting.ofKey keySpan (equals ++ a.quote :: (a.raw ++ a.quote :: after.ahead)) =
      ⟨.quoted, keySpan,
        ⟨keySpan.stop + byteLength equals, keySpan.stop + byteLength equals + byteLength a.raw + 2⟩⟩ := by
  obtain ⟨left, right, hleft, hright, rfl⟩ := hb.sign
  have htrim : Text.trimStart (left ++ '=' :: right ++ a.quote :: (a.raw ++ a.quote :: after.ahead)) =
      ['='] ++ (right ++ a.quote :: (a.raw ++ a.quote :: after.ahead)) := by
    rw [List.append_assoc]
    exact hleft.trimStart_append rfl _
  have hvalue := hright.trimStart_append (isBlank_of_isQuote hb.quote) (a.raw ++ a.quote :: after.ahead)
  have hcut : Text.cut? [a.quote] (a.raw ++ a.quote :: after.ahead) = some (a.raw, after.ahead) :=
    Text.cut?_append_of_not_mem [] after.ahead hb.raw
  have hskipped := Nat.add_sub_cancel (byteLength (left ++ '=' :: right))
    (byteLength (a.quote :: (a.raw ++ a.quote :: after.ahead)))
  rw [← Text.byteLength_append] at hskipped
  simp only [Sighting.ofKey, htrim, Text.strip?_append, Option.getD_some, hvalue, hskipped, hb.quote, if_true, hcut]

theorem Between.look_eq (base : Nat) (hb : a.Between here after gap equals)
    (hread : read? seen here = .ok (some (a, after))) (hcontent : content = front ++ here.ahead)
    (hoffset : here.offset = byteLength front) :
    Sighting.look base content here.offset a.key =
      ⟨.quoted, ⟨base + a.keyOffset, base + a.keyOffset + byteLength a.key⟩,
        ⟨base + a.valueOffset, base + a.valueOffset + byteLength a.raw + 2⟩⟩ := by
  obtain ⟨first, others, hkey, hfirst⟩ := exists_key_of_read? hread
  have hdrop : Text.dropBytes? content here.offset = some here.ahead := by
    rw [hcontent, hoffset]
    exact Text.dropBytes?_append front here.ahead
  have hcut : Text.cut? a.key here.ahead = some (gap, equals ++ a.quote :: (a.raw ++ a.quote :: after.ahead)) := by
    have hnot : first ∉ gap := fun hmem => by simp [hb.isGap first hmem] at hfirst
    have hahead : here.ahead =
        gap ++ (first :: others ++ (equals ++ a.quote :: (a.raw ++ a.quote :: after.ahead))) := by
      rw [hb.ahead, hkey]
      simp
    rw [hahead, hkey]
    exact Text.cut?_append_of_not_mem others _ hnot
  simp only [Sighting.look, hdrop, Option.getD_some, hcut, hb.ofKey_eq, hb.valueOffset, hb.keyOffset, Nat.add_assoc]

/-- The next attribute is looked up in what follows this one. -/
theorem Between.exists_front (hb : a.Between here after gap equals) (hcontent : content = front ++ here.ahead)
    (hoffset : here.offset = byteLength front) :
    ∃ next, content = next ++ after.ahead ∧ after.offset = byteLength next := by
  refine ⟨front ++ gap ++ a.key ++ equals ++ (a.quote :: a.raw ++ [a.quote]), ?_, ?_⟩
  · rw [hcontent, hb.ahead]
    simp
  · simp only [Text.byteLength_append, byteLength_quoted hb.quote, hb.offset, hb.valueOffset, hb.keyOffset, hoffset]
    omega

end RawAttribute

/-! ## Looking up all attributes of a tag -/

/-- The spans of the key and the value. -/
def Sighting.spans (s : Sighting) : List Span := [s.keySpan, s.valueSpan]

/-- The look-up gives what reading gives, and has met every attribute with its quoted value. -/
structure Lookup.Finds (l : Lookup) (read : Except Fault (List Attribute)) : Prop where
  same : l.attributes = read
  quoted : ∀ s ∈ l.sightings, s.met = .quoted
  spans : ∀ attributes, read = .ok attributes →
    l.sightings.flatMap Sighting.spans = attributes.flatMap Attribute.spans

theorem Lookup.finds_error (fault : Fault) : Finds ⟨[], .error fault⟩ (.error fault) :=
  ⟨rfl, List.forall_mem_nil _, nofun⟩

theorem Lookup.Finds.cons {l : Lookup} {read : Except Fault (List Attribute)} {s : Sighting} {first : Attribute}
    (h : l.Finds read) (hmet : s.met = .quoted) (hspans : s.spans = first.spans) :
    Finds ⟨s :: l.sightings, l.attributes.map (first :: ·)⟩ (do return first :: (← read)) where
  same := by
    rw [h.same]
    cases read <;> rfl
  quoted := List.forall_mem_cons.2 ⟨hmet, h.quoted⟩
  spans := by
    intro attributes hread
    cases read with
    | error fault => cases hread
    | ok others =>
      cases hread
      rw [List.flatMap_cons, List.flatMap_cons, hspans, h.spans others rfl]

/-- The invariant of the look-up is that it goes on from the place that reading has come to. -/
theorem finds_lookUpAttributes (base : Nat) (seen : List (Text × Nat)) {here : Place} {front content : Text}
    (hcontent : content = front ++ here.ahead) (hoffset : here.offset = byteLength front) :
    (lookUpAttributes base content here.offset seen here).Finds (readAttributes base seen here) := by
  fun_induction readAttributes base seen here generalizing front with
  | case1 seen here e hread =>
    rw [lookUpAttributes]
    split <;> cases hread.symm.trans ‹_›
    exact Lookup.finds_error _
  | case2 seen here hread =>
    rw [lookUpAttributes]
    split <;> cases hread.symm.trans ‹_›
    exact ⟨rfl, List.forall_mem_nil _, by rintro _ ⟨⟩; rfl⟩
  | case3 seen here raw after hread e hresolve =>
    rw [lookUpAttributes]
    split <;> cases hread.symm.trans ‹_›
    rw [RawAttribute.unescape_of_resolve_error hresolve]
    exact Lookup.finds_error _
  | case4 seen here raw after hread first hresolve ih =>
    obtain ⟨value, hvalue, hfirst⟩ := bind_eq_ok_iff.1 hresolve
    obtain ⟨gap, equals, hb⟩ := RawAttribute.exists_between_of_read? hread
    have hlook := hb.look_eq base hread hcontent hoffset
    cases hfirst
    rw [lookUpAttributes]
    split <;> cases hread.symm.trans ‹_›
    obtain ⟨next, hnext, hnextOffset⟩ := hb.exists_front hcontent hoffset
    have hstart : max (base + raw.valueOffset + byteLength raw.raw + 2 - base) here.offset = after.offset := by
      rw [hb.offset, hb.valueOffset, hb.keyOffset]
      omega
    simp only [hvalue, hlook, hstart]
    exact (ih hnext hnextOffset).cons rfl rfl

/-- Looking up the attributes of a tag gives those that are read. -/
theorem Tag.finds_lookUp (base : Nat) (content : Text) :
    (Tag.lookUp base content).Finds ((Tag.read base content).map Tag.attributes) := by
  have hoffset : ((⟨0, content⟩ : Place).skip continuesName).offset = byteLength (content.takeWhile continuesName) :=
    Nat.zero_add _
  have hcontent : content = content.takeWhile continuesName ++ ((⟨0, content⟩ : Place).skip continuesName).ahead :=
    List.takeWhile_append_dropWhile.symm
  have hread : (Tag.read base content).map Tag.attributes =
      readAttributes base [] ((⟨0, content⟩ : Place).skip continuesName) := by
    rw [Tag.read]
    cases readAttributes base [] ((⟨0, content⟩ : Place).skip continuesName) <;> rfl
  have hfinds := finds_lookUpAttributes base [] hcontent hoffset
  rwa [hoffset, ← hread] at hfinds

/-! ## Attributes of an element -/

theorem Attributes.start_lt_stop {offset : Nat} {t : Text} {attributes : List Attribute}
    (h : Attributes offset t attributes) : ∀ s ∈ attributes.flatMap Attribute.spans, s.start < s.stop := by
  induction h with
  | nil => exact List.forall_mem_nil _
  | @cons offset start valueStart gap key equals raw value rest quote others _ hkey _ _ _ _ _ _ _ ih =>
    obtain ⟨first, tail, rfl⟩ := List.exists_cons_of_ne_nil hkey
    obtain ⟨n, hn⟩ := Text.exists_byteLength_cons first tail
    rw [List.flatMap_cons]
    refine List.forall_mem_append.2 ⟨List.forall_mem_cons.2 ⟨?_, List.forall_mem_singleton.2 ?_⟩, ih⟩
    · simp only
      omega
    · simp only
      omega

/-- The spans of the attribute cover its key in the text, and its value as it is written there, with its quotes. -/
structure Attribute.Marked (t : Text) (a : Attribute) : Prop where
  name : a.nameSpan.slice? t = some a.name.text
  value : ∃ quote raw, a.valueSpan.slice? t = some (quote :: raw ++ [quote]) ∧ isQuote quote = true ∧ quote ∉ raw ∧
    unescape raw = .ok a.value

/-- The attributes of a tag are marked in the text around it, one behind the other and behind the name. -/
theorem Tag.marked_of_read {content : Text} {tag : Tag} (front back : Text)
    (h : Tag.read (byteLength front) content = .ok tag) :
    (∀ a ∈ tag.attributes, a.Marked (front ++ (content ++ back))) ∧
      (tag.attributes.flatMap Attribute.spans).Pairwise (fun s r => s.stop ≤ r.start) ∧
      ∀ s ∈ tag.attributes.flatMap Attribute.spans, byteLength front + byteLength tag.name.text ≤ s.start ∧
        s.start < s.stop ∧ s.stop ≤ byteLength front + byteLength content := by
  obtain ⟨rest, hcontent, -, hattributes⟩ := Tag.exists_of_read h
  have htext : front ++ (content ++ back) = front ++ tag.name.text ++ (rest ++ back) := by
    rw [hcontent]
    simp
  have hslice : ∀ {s : Span} {part : Text}, s.Covers (byteLength front + byteLength tag.name.text) rest part →
      s.slice? (front ++ (content ++ back)) = some part := by
    intro s part hs
    rw [htext]
    exact ((hs.append back).prepend (front ++ tag.name.text) (by simp)).slice?
  have hlaid := hattributes.laid
  refine ⟨fun a ha => ?_, hlaid.ordered, fun s hs => ?_⟩
  · obtain ⟨hname, quote, raw, hvalue, hquote, hraw, hunescape⟩ := hattributes.covers a ha
    exact ⟨hslice hname, quote, raw, hslice hvalue, hquote, hraw, hunescape⟩
  · obtain ⟨part, hpart⟩ := hlaid.covers s hs
    have hstop := hpart.stop_le
    refine ⟨hpart.offset_le, hattributes.start_lt_stop s hs, ?_⟩
    rw [hcontent, Text.byteLength_append]
    omega

namespace Element

/-- Where the attributes of an element stand in the text. -/
structure Pointed (t : Text) (e : Element) : Prop where
  marked : ∀ a ∈ e.tag.attributes, a.Marked t
  /-- The spans of the first name, the first value, the second name and so on come one behind the other. -/
  ordered : (e.tag.attributes.flatMap Attribute.spans).Pairwise fun s r => s.stop ≤ r.start
  /-- They lie in the start tag, behind the name of the element and before the mark that ends the tag. -/
  inside : ∃ stop, e.StartTag t stop ∧ ∀ s ∈ e.tag.attributes.flatMap Attribute.spans,
    e.span.start + 1 + byteLength e.tag.name.text ≤ s.start ∧ s.start < s.stop ∧ s.stop < stop

theorem StartTag.pointed {t : Text} {e : Element} {stop : Nat} (h : e.StartTag t stop) : e.Pointed t := by
  obtain ⟨before, token, after, content, hall, htoken, hread, hstart, hstop⟩ := h
  obtain ⟨last, hlast, hsource⟩ : ∃ last, last ≠ [] ∧ token.source = '<' :: content ++ last := by
    cases token <;> cases htoken
    · exact ⟨['>'], nofun, rfl⟩
    · exact ⟨['/', '>'], nofun, rfl⟩
  have ht : t = (sources before ++ ['<']) ++ (content ++ (last ++ sources after)) := by
    have heq := (Token.reads_of_readAll hall).eq_append
    rw [Token.sources_append, Token.sources_cons, hsource] at heq
    simpa using heq
  have hfront : byteLength (sources before ++ ['<']) = e.span.start + 1 := by
    rw [Text.byteLength_append, hstart]
    rfl
  rw [← hfront] at hread
  obtain ⟨hmarked, hordered, hinside⟩ := Tag.marked_of_read _ (last ++ sources after) hread
  rw [← ht] at hmarked
  rw [hfront] at hinside
  have hend : e.span.start + 1 + byteLength content < stop := by
    obtain ⟨first, tail, rfl⟩ := List.exists_cons_of_ne_nil hlast
    have hpos := first.utf8Size_pos
    rw [hstop, hsource]
    simp only [List.cons_append, Text.byteLength_cons, Text.byteLength_append, show '<'.utf8Size = 1 from rfl]
    omega
  refine ⟨hmarked, hordered, stop, ⟨before, token, after, content, hall, htoken, hfront ▸ hread, hstart, hstop⟩, ?_⟩
  intro s hs
  obtain ⟨hbegin, hlt, hle⟩ := hinside s hs
  exact ⟨hbegin, hlt, Nat.lt_of_le_of_lt hle hend⟩

end Element

/-! ## Main statement -/

/-- In a text without a byte order mark the spans of all attributes lie where the attributes are written, and in no
tag does the look-up of an attribute meet anything but its key and its quoted value. -/
theorem Document.pointed_of_parse {t : Text} {d : Document} (hmark : t.head? ≠ some '\uFEFF')
    (h : Document.parse t = .ok d) :
    (∀ e : Element, e.Within d.root → e.Pointed t) ∧
      ∀ base content, (Tag.lookUp base content).Finds ((Tag.read base content).map Tag.attributes) := by
  refine ⟨fun e he => ?_, Tag.finds_lookUp⟩
  obtain ⟨tokens, pieces, hall, hcontent, hroot⟩ := exists_content_of_parse h
  rw [dropMark_eq_self hmark] at hall
  obtain ⟨before, own, after, inside, rfl, hw⟩ := hcontent.exists_written (hroot ▸ List.mem_singleton_self _) he
  rw [Nat.zero_add] at hw
  obtain ⟨stop, hstart, -⟩ := (hw.lies hall).inner
  exact hstart.pointed

/-- A tag with keys that occur in an earlier value or key, gaps around an equals sign, and no gap before a key. -/
def Document.pointedTag : Text := "p:e a='c=\"é' p:c\t=\n\"&lt;\"c='>'e='' ".toList

/-- The values are given without their quotes, and with the character that a reference stands for. -/
theorem Document.pointed_of_parse_overlapping :
    ∃ (t : Text) (d : Document) (e : Element), t = "<r><".toList ++ pointedTag ++ "/></r>".toList ∧
      t.head? ≠ some '\uFEFF' ∧ Document.parse t = .ok d ∧ e.Within d.root ∧
      e.tag.attributes.flatMap Attribute.spans =
        [⟨8, 9⟩, ⟨10, 17⟩, ⟨18, 21⟩, ⟨24, 30⟩, ⟨30, 31⟩, ⟨32, 35⟩, ⟨35, 36⟩, ⟨37, 39⟩] ∧
      ([⟨10, 17⟩, ⟨24, 30⟩, ⟨32, 35⟩, ⟨37, 39⟩] : List Span).map (·.slice? t) =
        [some "'c=\"é'".toList, some "\"&lt;\"".toList, some "'>'".toList, some "''".toList] ∧
      e.tag.attributes.map Attribute.value = ["c=\"é".toList, ['<'], ['>'], []] ∧
      e.Pointed t ∧ (Tag.lookUp 4 pointedTag).Finds ((Tag.read 4 pointedTag).map Tag.attributes) := by
  have hpath : ((Document.parse ("<r><".toList ++ pointedTag ++ "/></r>".toList)).toOption.bind fun d =>
      (d.root.child? ['e']).map fun e =>
        (e.tag.attributes.flatMap Attribute.spans, e.tag.attributes.map Attribute.value)) =
      some ([⟨8, 9⟩, ⟨10, 17⟩, ⟨18, 21⟩, ⟨24, 30⟩, ⟨30, 31⟩, ⟨32, 35⟩, ⟨35, 36⟩, ⟨37, 39⟩],
        ["c=\"é".toList, ['<'], ['>'], []]) := by decide +kernel
  simp only [Option.bind_eq_some_iff, Option.map_eq_some_iff, toOption_eq_some_iff, Prod.mk.injEq] at hpath
  obtain ⟨d, hd, e, he, hspans, hvalues⟩ := hpath
  have hwithin : e.Within d.root := .child (List.mem_of_find?_eq_some he) (.self e)
  have hmark : ("<r><".toList ++ pointedTag ++ "/></r>".toList).head? ≠ some '\uFEFF' := by decide
  obtain ⟨hpointed, hfinds⟩ := Document.pointed_of_parse hmark hd
  exact ⟨_, d, e, rfl, hmark, hd, hwithin, hspans, by decide, hvalues, hpointed e hwithin, hfinds 4 pointedTag⟩

end LintFixture.Markup
