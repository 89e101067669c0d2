import LintFixture.Cli.Report
import LintFixture.Proofs.Fixture.Flaw
import LintFixture.Proofs.Markup.Geometry
import LintFixture.Proofs.Markup.Slice

/-!
# The range that a report marks

A report turns the byte span of an error into a range of characters. Spans are
counted from behind a byte order mark, the characters of a report from before it.
So the range is that of the faulty element, or of the name of the root, exactly
when the text begins with no such mark (`charRange_eq_iff`).
-/

namespace LintFixture

namespace Cli

open Markup Fixture
open Text (byteLength)
open Token (sources)

variable {t before part after : Text} {span : Span}

theorem charsBefore_append (before after : Text) :
    charsBefore (before ++ after) (byteLength before) = before.length := by
  rw [charsBefore, Text.takeBytes?_append]

/-- A span that is counted from the start of the text covers the characters it is meant to. -/
theorem charRange_append (before part after : Text) :
    charRange (before ++ part ++ after) ⟨byteLength before, byteLength before + byteLength part⟩ =
      (before.length, (before ++ part).length) := by
  have hstart : charsBefore (before ++ part ++ after) (byteLength before) = before.length := by
    rw [List.append_assoc, charsBefore_append]
  have hstop := charsBefore_append (before ++ part) after
  rw [Text.byteLength_append] at hstop
  simp only [charRange, hstart, hstop, List.length_append]
  rw [Nat.max_eq_left (Nat.le_add_right _ _)]

/-- Behind a byte order mark, the bytes of a place count too few characters, or too many. -/
theorem charsBefore_mark_ne {after : Text} (before : Text) (hafter : after ≠ []) :
    charsBefore ('\uFEFF' :: (before ++ after)) (byteLength before) ≠ before.length + 1 := by
  have hlength : 0 < after.length := List.length_pos_iff.2 hafter
  unfold charsBefore
  split
  · next front hfront =>
    -- as many characters as stand before the place would be the mark and these, which are more bytes
    obtain ⟨more, hsplit, hbytes⟩ := Text.eq_append_of_takeBytes? hfront
    intro heq
    have hfront : front = '\uFEFF' :: before :=
      List.append_inj_left (show front ++ more = ('\uFEFF' :: before) ++ after from hsplit.symm) heq
    have hmark : 0 < '\uFEFF'.utf8Size := Char.utf8Size_pos _
    rw [hfront, Text.byteLength_cons] at hbytes
    omega
  · simp only [List.length_cons, List.length_append]
    omega

end Cli

/-! ## The markup of an element -/

namespace Markup

open Text (byteLength)
open Token (sources)

variable {t : Text} {d : Document} {e : Element}

theorem Written.span_eq {offset : Nat} {own : List Token} {pieces : List Piece} (h : Written offset own pieces e) :
    e.span = ⟨offset, offset + byteLength (sources own)⟩ := by
  obtain ⟨_, _, _, _, _, _, hspan, -⟩ := h.exists_start
  exact hspan

/-- The markup of an element goes from `<` and the name to `>`, and its tag knows the place of the name. -/
theorem Written.exists_source {offset : Nat} {own : List Token} {pieces : List Piece}
    (h : Written offset own pieces e) :
    (∃ inner, sources own = '<' :: (e.tag.name.text ++ inner ++ ['>'])) ∧
      e.tag.nameSpan = ⟨offset + 1, offset + 1 + byteLength e.tag.name.text⟩ := by
  cases h with
  | @empty content tag hread =>
    obtain ⟨rest, rfl, hname, -⟩ := Tag.exists_of_read hread
    exact ⟨⟨rest ++ ['/'], by simp [Token.source]⟩, hname⟩
  | @pair content close tag inside pieces hread =>
    obtain ⟨rest, rfl, hname, -⟩ := Tag.exists_of_read hread
    exact ⟨⟨rest ++ '>' :: (sources inside ++ ['<', '/'] ++ close), by simp [Token.source]⟩, hname⟩

/-- Every element of a document is written in its text, behind a byte order mark if there is one. -/
theorem Document.exists_written_of_within (h : Document.parse t = .ok d) (he : e.Within d.root) :
    ∃ before own after inside, dropMark t = before ++ sources own ++ after ∧
      Written (byteLength before) own inside e ∧ e.Lies (dropMark t) := by
  obtain ⟨tokens, pieces, hall, hcontent, hroot⟩ := exists_content_of_parse h
  obtain ⟨before, own, after, inside, rfl, hw⟩ := hcontent.exists_written (hroot ▸ List.mem_singleton_self _) he
  rw [Nat.zero_add] at hw
  have ht := (Token.reads_of_readAll hall).eq_append
  rw [Token.sources_append, Token.sources_append, List.append_nil] at ht
  exact ⟨sources before, own, sources after, inside, ht, hw, hw.lies hall⟩

theorem dropMark_cases (t : Text) : t.head? = some '\uFEFF' ∧ t = '\uFEFF' :: dropMark t ∨
    t.head? ≠ some '\uFEFF' ∧ t = dropMark t := by
  by_cases h : t.head? = some '\uFEFF'
  · obtain ⟨rest, rfl⟩ := List.head?_eq_some_iff.1 h
    exact .inl ⟨rfl, rfl⟩
  · exact .inr ⟨h, (dropMark_eq_self h).symm⟩

end Markup

/-! ## What an error is about -/

namespace Fixture

open Markup Schema
open Text (byteLength)
open Token (sources)

/-- A broken rule is blamed on the entry, or on an element directly inside it. -/
theorem Schema.Breaks.exists_culprit {root e : Element} {rule : Rule} {flaw : Flaw} (h : Breaks root e rule flaw) :
    ∃ culprit, (culprit = e ∨ culprit ∈ e.elements) ∧ flaw.span = culprit.span := by
  cases h with
  | has | hasCode => exact ⟨e, .inl rfl, rfl⟩
  | countIsSize h | linesAreSizes h | messagesMatch h | linesMatch h | linesExist h =>
    exact ⟨_, .inr (List.mem_of_find?_eq_some h), rfl⟩
  | referenceHasId _ h | referenceIsKnown _ h => exact ⟨_, .inr (List.mem_of_find?_eq_some h), rfl⟩
  | @propertiesHaveNames before after property h =>
    have hproperty : property ∈ e.childrenNamed Vocabulary.ruleProperty :=
      h ▸ List.mem_append_right _ List.mem_cons_self
    exact ⟨property, .inr (List.mem_of_mem_filter hproperty), rfl⟩

/-- The error is about a part of the text of the document, which stands behind `before`. -/
inductive IsAbout (d : Document) : Error → Text → Text → Prop
  /-- The markup of the entry that breaks the schema, or of the element in it that is at fault. -/
  | element {index : Nat} {description : Option Text} {e culprit : Element} {flaw : Flaw} {before : Text}
    {own : List Token} {inside : List Piece} (he : (d.root.childrenNamed Vocabulary.testCode)[index]? = some e)
    (hb : BreaksFirst d.root e Rule.order flaw) (hc : culprit = e ∨ culprit ∈ e.elements)
    (hs : flaw.span = culprit.span) (hw : Written (byteLength before) own inside culprit) :
    IsAbout d (.schema index description flaw.span flaw.fault) before (sources own)
  /-- The name of the root, which follows its `<`. -/
  | rootName {before : Text} {own : List Token} {inside : List Piece} (hn : d.root.name ≠ Vocabulary.testData)
    (hw : Written (byteLength before) own inside d.root) :
    IsAbout d (.wrongRoot d.root.name d.root.tag.nameSpan) (before ++ ['<']) d.root.tag.name.text

/-- What an error of the schema is about stands in the text of the document, and the error has its span. -/
theorem exists_isAbout {t : Text} {d : Document} {error : Error} (hd : Document.parse t = .ok d)
    (h : Suite.ofDocument d = .error (.fault error)) :
    ∃ before part after, IsAbout d error before part ∧ dropMark t = before ++ part ++ after ∧ part ++ after ≠ [] ∧
      error.span? = some ⟨byteLength before, byteLength before + byteLength part⟩ := by
  rw [Suite.ofDocument_eq_error_iff] at h
  by_cases hroot : d.root.name = Vocabulary.testData
  · obtain ⟨front, e, back, flaw, hsplit, -, hflaw, rfl⟩ := (readRoot_eq_fault_iff hroot).1 h
    obtain ⟨_, rule, _, -, hbreaks, -⟩ := exists_breaksFirst hflaw
    obtain ⟨culprit, hculprit, hspan⟩ := hbreaks.exists_culprit
    have hentry : e ∈ d.root.elements :=
      List.mem_of_mem_filter (hsplit ▸ List.mem_append_right front List.mem_cons_self : e ∈ d.root.childrenNamed _)
    have hwithin : culprit.Within d.root := by
      rcases hculprit with rfl | hinside
      · exact .child hentry (.self _)
      · exact .child hentry (.child hinside (.self _))
    obtain ⟨before, own, after, inside, ht, hw, -⟩ := Document.exists_written_of_within hd hwithin
    obtain ⟨⟨inner, hsource⟩, -⟩ := hw.exists_source
    refine ⟨before, sources own, after, .element (by simp [hsplit]) (exists_breaksFirst hflaw) hculprit hspan hw, ht,
      by simp [hsource], ?_⟩
    rw [Error.span?, hspan, hw.span_eq]
  · rw [readRoot, if_neg hroot] at h
    obtain rfl := Stop.fault.inj (Except.error.inj h)
    obtain ⟨before, own, after, inside, ht, hw, -⟩ := Document.exists_written_of_within hd (.self d.root)
    obtain ⟨⟨inner, hsource⟩, hname⟩ := hw.exists_source
    refine ⟨before ++ ['<'], d.root.tag.name.text, inner ++ ['>'] ++ after, .rootName hroot hw, ?_, by simp, ?_⟩
    · rw [ht, hsource]
      simp
    · rw [Error.span?, hname, Text.byteLength_append]
      rfl

end Fixture

/-! ## Main statement -/

namespace Cli

open Markup Fixture
open Text (byteLength)

/-- A text that is a document and no fixture: the range that is reported is that of the faulty element, or of the name
of the root, exactly when the text begins with no byte order mark. Without one, both ends are on characters. -/
theorem charRange_eq_iff {t : Text} {error : Fixture.Error} (h : Suite.parse t = .error (.fault error))
    (hd : ∀ own, error ≠ .markup own) :
    ∃ d mark before part after span, Document.parse t = .ok d ∧ error.span? = some span ∧ IsAbout d error before part ∧
      t = mark ++ before ++ part ++ after ∧ dropMark t = before ++ part ++ after ∧
      (t.head? ≠ some '\uFEFF' →
        t.takeBytes? span.start = some before ∧ t.takeBytes? span.stop = some (before ++ part)) ∧
      (charRange t span = ((mark ++ before).length, (mark ++ before ++ part).length) ↔ t.head? ≠ some '\uFEFF') := by
  obtain ⟨d, hparse, hread⟩ :=
    Suite.exists_document_of_parse h fun own heq => hd own (Stop.fault.inj (Except.error.inj heq))
  obtain ⟨before, part, after, habout, hdrop, hne, hspan⟩ := exists_isAbout hparse hread
  rcases dropMark_cases t with ⟨hmark, ht⟩ | ⟨hmark, ht⟩
  · refine ⟨d, ['\uFEFF'], before, part, after, _, hparse, hspan, habout, ?_, hdrop, fun hno => absurd hmark hno,
      iff_of_false (fun hrange => ?_) fun hno => hno hmark⟩
    · rw [ht, hdrop]
      simp
    · rw [ht, hdrop, List.append_assoc] at hrange
      refine charsBefore_mark_ne before hne ((congrArg Prod.fst hrange).trans ?_)
      simp
  · rw [hdrop] at ht
    refine ⟨d, [], before, part, after, _, hparse, hspan, habout, ht, hdrop, fun _ => ⟨?_, ?_⟩, iff_of_true ?_ hmark⟩
    · rw [ht, List.append_assoc]
      exact Text.takeBytes?_append before _
    · rw [ht, ← Text.byteLength_append]
      exact Text.takeBytes?_append _ _
    · rw [ht, charRange_append]
      rfl

/-- A fixture whose entry lists a line that its code has not, behind two-byte characters. -/
def accentedFixture : Text :=
  ["<!-- é -->", "<test-data>", "é", "<test-code>", "<description>", "é", "</description>",
    "<expected-problems>", "1", "</expected-problems>", "<expected-linenumbers>", "2", "</expected-linenumbers>",
    "<code>", "x", "</code>", "</test-code>", "</test-data>"].flatMap String.toList

/-- What is reported on it. -/
def accentedError : Fixture.Error := .schema 0 (some ['é']) ⟨104, 150⟩ (.lineOutside 2 1)

theorem charRange_eq_iff_accented :
    Suite.parse accentedFixture = .error (.fault accentedError) ∧
    ∃ d mark before part after span, Document.parse accentedFixture = .ok d ∧ accentedError.span? = some span ∧
      IsAbout d accentedError before part ∧ accentedFixture = mark ++ before ++ part ++ after ∧
      dropMark accentedFixture = before ++ part ++ after ∧
      (accentedFixture.head? ≠ some '\uFEFF' → accentedFixture.takeBytes? span.start = some before ∧
        accentedFixture.takeBytes? span.stop = some (before ++ part)) ∧
      (charRange accentedFixture span = ((mark ++ before).length, (mark ++ before ++ part).length) ↔
        accentedFixture.head? ≠ some '\uFEFF') := by
  have hparse : Suite.parse accentedFixture = .error (.fault accentedError) := by decide +kernel
  exact ⟨hparse, charRange_eq_iff hparse nofun⟩

/-- A document with a byte order mark whose root has another name. -/
def markedText : Text := ['\uFEFF', '<', 'r', '/', '>']

/-- Its root is named by the third character, and reported behind the last one. -/
theorem not_charRange_marked :
    Suite.parse markedText = .error (.fault (.wrongRoot ['r'] ⟨1, 2⟩)) ∧
      markedText = ['\uFEFF', '<'] ++ ['r'] ++ ['/', '>'] ∧
      charRange markedText ⟨1, 2⟩ = (5, 5) ∧ charRange markedText ⟨1, 2⟩ ≠ (2, 3) ∧
      markedText.takeBytes? 1 = none := by
  decide +kernel

end Cli

end LintFixture
