import LintFixture.Proofs.Markup.Progress
import LintFixture.Proofs.Markup.Shift
import LintFixture.Proofs.Text.Bytes

/-!
# The text of an element

The span of an element covers a document of its own: read alone, it gives the same
element, with its spans counted from its own start (`Document.exists_parse_slice`).
The tokens of an open element do the same on top of any other open elements
(`Opens`), and those of a complete one complete it there (`Spells`). `Tracks` says
so for all elements met, and each token keeps it up.
-/

namespace LintFixture.Markup

open Text (byteLength)
open Token (sources)

/-- The element itself, or one at any depth inside it. -/
inductive Element.Within : Element → Element → Prop
  | self (e : Element) : Within e e
  | child {inner child e : Element} (hc : child ∈ e.elements) (h : Within inner child) : Within inner e

/-! ## What tokens do on top of other elements -/

/-- Wherever they stand, the tokens leave a new innermost element. -/
structure Opens (tokens : List Token) (f : Frame) : Prop where
  begins : '<' :: f.tag.name.text <+: sources tokens
  start : f.start = 0
  run : ∀ (s : Progress) (offset : Nat), s.run offset tokens = .ok ⟨f.shift offset :: s.frames, s.root⟩

/-- Wherever they stand, the tokens complete the element. -/
structure Spells (tokens : List Token) (e : Element) : Prop where
  source : ∃ inner, sources tokens = '<' :: (e.tag.name.text ++ inner ++ ['>'])
  span : e.span = ⟨0, byteLength (sources tokens)⟩
  run : ∀ (s : Progress) (offset : Nat), s.run offset tokens = Progress.complete s.frames s.root (e.shift offset)

/-! ### The parts of an element -/

theorem Tag.text_name_prefix_of_read {base : Nat} {content : Text} {tag : Tag} (h : Tag.read base content = .ok tag) :
    tag.name.text <+: content := by
  obtain ⟨attributes, -, h⟩ := bind_eq_ok_iff.1 h
  cases h
  rw [Name.text_ofText]
  exact List.takeWhile_prefix _

/-- All that a token at the start of a document can mean: nothing, text, or one of the three kinds of tags. -/
inductive Token.Means : Token → Option Event → Prop
  | nothing (token : Token) : Means token none
  | text (token : Token) (run : Run) : Means token (some (.text run))
  | verbatim (token : Token) (run : Run) : Means token (some (.verbatim run))
  | opening {content : Text} {tag : Tag} (hread : Tag.read 1 content = .ok tag) :
    Means (.openTag content) (some (.opening tag 0))
  | empty {content : Text} {tag : Tag} (hread : Tag.read 1 content = .ok tag) :
    Means (.emptyTag content) (some (.empty tag ⟨0, byteLength (Token.emptyTag content).source⟩))
  | closing (content : Text) :
    Means (.closeTag content) (some (.closing (closingName content) ⟨0, byteLength (Token.closeTag content).source⟩))

theorem Token.means_of_event {token : Token} {event : Option Event} (h : token.event 0 = .ok event) :
    Means token event := by
  cases token with
  | run chars =>
    simp only [Token.event] at h
    split at h <;> cases h
    exact .text _ _
  | cdata body =>
    cases h
    exact .verbatim _ _
  | comment body =>
    cases h
    exact .nothing _
  | instruction body =>
    cases h
    exact .nothing _
  | doctype keyword body =>
    simp only [Token.event] at h
    split at h <;> cases h
    exact .nothing _
  | closeTag content =>
    simp only [Token.event, Nat.zero_add] at h
    cases h
    exact .closing content
  | openTag content =>
    simp only [Token.event, Nat.zero_add] at h
    split at h <;> cases h
    exact .opening ‹_›
  | emptyTag content =>
    simp only [Token.event, Nat.zero_add] at h
    split at h <;> cases h
    exact .empty ‹_›

/-- A token is taken in as it would be at the start, moved to where it stands. -/
theorem Progress.run_of_event {token : Token} {event : Option Event} (h : token.event 0 = .ok event) (s : Progress)
    (offset : Nat) : s.run offset [token] = s.takeIn (event.map (Event.shift offset)) := by
  rw [run_singleton, Token.event_eq_ok_iff.2 ⟨event, h, rfl⟩]
  rfl

/-- A start tag begins with the name, and opens the element from its first byte on. -/
theorem opens_openTag {content : Text} {tag : Tag} (h : Tag.read 1 content = .ok tag) :
    Opens [.openTag content] ⟨tag, 0, []⟩ where
  begins := by
    obtain ⟨rest, hcontent⟩ := Tag.text_name_prefix_of_read h
    exact ⟨rest ++ ['>'], by simp [← hcontent, Token.source]⟩
  start := rfl
  run := by
    intro s offset
    have hevent : (Token.openTag content).event 0 = .ok (some (.opening tag 0)) := by simp only [Token.event, h]
    exact Progress.run_of_event hevent s offset

/-- An empty tag is an element. -/
theorem spells_emptyTag {content : Text} {tag : Tag} (h : Tag.read 1 content = .ok tag) :
    Spells [.emptyTag content] ⟨tag, ⟨0, byteLength (Token.emptyTag content).source⟩, []⟩ where
  source := by
    obtain ⟨rest, hcontent⟩ := Tag.text_name_prefix_of_read h
    exact ⟨rest ++ ['/'], by simp [← hcontent, Token.source]⟩
  span := by rw [Token.sources_singleton]
  run := by
    intro s offset
    have hevent : (Token.emptyTag content).event 0 =
        .ok (some (.empty tag ⟨0, byteLength (Token.emptyTag content).source⟩)) := by simp [Token.event, h]
    exact Progress.run_of_event hevent s offset

namespace Opens

variable {inside own : List Token} {token : Token} {f : Frame}

/-- Tokens that leave the element open and change what stands in it. -/
theorem append {more : List Token} {next : Frame} (ho : Opens inside f) (htag : next.tag = f.tag)
    (hstart : next.start = f.start)
    (h : ∀ (frames : List Frame) (root : Option Element) (offset : Nat),
      Progress.run ⟨f.shift offset :: frames, root⟩ (offset + byteLength (sources inside)) more =
        .ok ⟨next.shift offset :: frames, root⟩) :
    Opens (inside ++ more) next where
  begins := by
    rw [htag, Token.sources_append]
    exact ho.begins.trans (List.prefix_append ..)
  start := hstart.trans ho.start
  run := by
    intro s offset
    rw [Progress.run_append, ho.run]
    exact h s.frames s.root offset

theorem silent (ho : Opens inside f) (h : token.event 0 = .ok none) : Opens (inside ++ [token]) f :=
  ho.append rfl rfl fun _ _ _ => Progress.run_of_event h _ _

theorem text {run : Run} (ho : Opens inside f) (h : token.event 0 = .ok (some (.text run))) :
    Opens (inside ++ [token]) (f.addText (run.shift (byteLength (sources inside)))) := by
  refine ho.append (Frame.tag_addText ..) (Frame.start_addText ..) fun frames root offset => ?_
  rw [Progress.run_of_event h, ← Frame.addText_shift, Run.shift_shift]
  rfl

theorem verbatim {run : Run} (ho : Opens inside f) (h : token.event 0 = .ok (some (.verbatim run))) :
    Opens (inside ++ [token]) (f.add (.text (run.shift (byteLength (sources inside))))) := by
  refine ho.append rfl rfl fun frames root offset => ?_
  rw [Progress.run_of_event h, ← Frame.add_shift, Child.shift, Run.shift_shift]
  rfl

theorem element {e : Element} (ho : Opens inside f) (hs : Spells own e) :
    Opens (inside ++ own) (f.add (.element (e.shift (byteLength (sources inside))))) := by
  refine ho.append rfl rfl fun frames root offset => ?_
  rw [hs.run, ← Frame.add_shift, Child.shift, Element.shift_shift]
  rfl

/-- The end tag of an open element completes it. -/
theorem close {content : Text} (ho : Opens inside f) (hname : f.tag.name.text = closingName content) :
    Spells (inside ++ [.closeTag content]) (f.close (byteLength (sources (inside ++ [.closeTag content])))) where
  source := by
    obtain ⟨inner, hinner⟩ := ho.begins
    exact ⟨inner ++ ['<', '/'] ++ content, by simp [← hinner, Token.source, Frame.close]⟩
  span := by rw [Frame.close, ho.start]
  run := by
    intro s offset
    have hshift : (f.shift offset).tag.name.text = closingName content := hname
    rw [Progress.run_append, ho.run, ← Frame.close_shift]
    simp only [bind, Except.bind, Progress.run_singleton, Token.event, Progress.takeIn, Progress.step, hshift, if_true,
      Token.sources_append, Token.sources_singleton, Text.byteLength_append, Nat.add_assoc]

end Opens

/-! ## All elements stand by their tokens -/

/-- The open elements, innermost first, after the tokens; each was opened by the tokens since its start. -/
inductive Stack : List Token → List Frame → Prop
  | nil (done : List Token) : Stack done []
  | cons {outside inside : List Token} {f : Frame} {outer : List Frame} (h : Stack outside outer)
    (ho : Opens inside f) :
    Stack (outside ++ inside) (f.shift (byteLength (sources outside)) :: outer)

/-- The element is what some of the tokens spell, moved to where these stand. -/
def Stands (tokens : List Token) (e : Element) : Prop :=
  ∃ before own after first, tokens = before ++ own ++ after ∧ Spells own first ∧
    e = first.shift (byteLength (sources before))

/-- The element and all inside it stand by their own tokens. -/
def AllStand (tokens : List Token) (e : Element) : Prop :=
  ∀ inner : Element, inner.Within e → Stands tokens inner

theorem AllStand.append {tokens : List Token} {e : Element} (h : AllStand tokens e) (more : List Token) :
    AllStand (tokens ++ more) e := by
  intro inner hinner
  obtain ⟨before, own, after, first, rfl, hs, he⟩ := h inner hinner
  exact ⟨before, own, after ++ more, first, List.append_assoc .., hs, he⟩

theorem allStand_of_elements {tokens : List Token} {e : Element} (he : Stands tokens e)
    (hin : ∀ child ∈ e.elements, AllStand tokens child) : AllStand tokens e := by
  intro inner hinner
  cases hinner with
  | self => exact he
  | child hc h => exact hin _ hc inner h

/-- All elements met so far, open or complete, stand by their own tokens. -/
structure Tracks (done : List Token) (s : Progress) : Prop where
  stack : Stack done s.frames
  inside : ∀ f ∈ s.frames, ∀ e ∈ f.elements, AllStand done e
  root : ∀ e, s.root = some e → AllStand done e

theorem tracks_start : Tracks [] .start := ⟨.nil [], List.forall_mem_nil _, nofun⟩

namespace Tracks

variable {done : List Token} {s next : Progress} {token : Token}

/-- Tokens that complete no element. -/
theorem same {more : List Token} {frames : List Frame} (h : Tracks done s) (hstack : Stack (done ++ more) frames)
    (hold : ∀ f ∈ frames, ∀ e ∈ f.elements, ∃ g ∈ s.frames, e ∈ g.elements) :
    Tracks (done ++ more) ⟨frames, s.root⟩ where
  stack := hstack
  inside := by
    intro f hf e he
    obtain ⟨g, hg, heg⟩ := hold f hf e he
    exact (h.inside g hg e heg).append more
  root := fun e he => (h.root e he).append more

/-- Tokens that complete an element: it is put into the innermost open one or becomes the root. -/
theorem complete {outside own : List Token} {outer : List Frame} {root : Option Element} {first : Element}
    (hstack : Stack outside outer) (hs : Spells own first)
    (hinside : ∀ f ∈ outer, ∀ e ∈ f.elements, AllStand (outside ++ own) e)
    (hroot : ∀ e, root = some e → AllStand (outside ++ own) e)
    (hchildren : ∀ e ∈ (first.shift (byteLength (sources outside))).elements, AllStand (outside ++ own) e)
    (hc : Progress.complete outer root (first.shift (byteLength (sources outside))) = .ok next) :
    Tracks (outside ++ own) next := by
  have hall : AllStand (outside ++ own) (first.shift (byteLength (sources outside))) :=
    allStand_of_elements ⟨outside, own, [], first, (List.append_nil _).symm, hs, rfl⟩ hchildren
  cases hstack with
  | nil =>
    cases root with
    | none =>
      cases hc
      exact ⟨.nil _, List.forall_mem_nil _, by rintro _ ⟨⟩; exact hall⟩
    | some _ => cases hc
  | @cons before inside f outer hstack ho =>
    cases hc
    rw [List.forall_mem_cons] at hinside
    refine ⟨?_, List.forall_mem_cons.2 ⟨?_, hinside.2⟩, hroot⟩
    · rw [List.append_assoc, Token.sources_append, Text.byteLength_append, ← Element.shift_shift]
      exact .cons hstack (ho.element hs)
    · intro e he
      rw [Frame.elements_add_element, List.mem_append, List.mem_singleton] at he
      rcases he with he | rfl
      · exact hinside.1 e he
      · exact hall

/-- Tokens that change the innermost element alone and complete none. -/
theorem innermost {outside inside more : List Token} {f changed : Frame} {outer : List Frame} {root : Option Element}
    (h : Tracks (outside ++ inside) ⟨f.shift (byteLength (sources outside)) :: outer, root⟩)
    (hstack : Stack outside outer) (ho : Opens (inside ++ more) changed)
    (hsame : (changed.shift (byteLength (sources outside))).elements =
      (f.shift (byteLength (sources outside))).elements) :
    Tracks (outside ++ inside ++ more) ⟨changed.shift (byteLength (sources outside)) :: outer, root⟩ := by
  refine h.same (by rw [List.append_assoc]; exact .cons hstack ho) ?_
  rintro g hg e he
  rcases List.mem_cons.1 hg with rfl | hg
  · exact ⟨_, List.mem_cons_self, hsame ▸ he⟩
  · exact ⟨g, List.mem_cons_of_mem _ hg, he⟩

theorem silent (h : Tracks done s) (ht : token.event 0 = .ok none) : Tracks (done ++ [token]) s := by
  obtain ⟨frames, root⟩ := s
  have hstack : Stack done frames := h.stack
  cases hstack with
  | nil => exact h.same (.nil _) (List.forall_mem_nil _)
  | cons hstack ho => exact h.innermost hstack (ho.silent ht) rfl

theorem text {run : Run} (h : Tracks done s) (ht : token.event 0 = .ok (some (.text run)))
    (hs : s.step (.text (run.shift (byteLength (sources done)))) = .ok next) : Tracks (done ++ [token]) next := by
  obtain ⟨frames, root⟩ := s
  have hstack : Stack done frames := h.stack
  cases hstack with
  | nil =>
    cases hs
    exact h.same (.nil _) (List.forall_mem_nil _)
  | cons hstack ho =>
    cases hs
    rw [Token.sources_append, Text.byteLength_append, ← Run.shift_shift, Frame.addText_shift]
    refine h.innermost hstack (ho.text ht) ?_
    rw [← Frame.addText_shift, Frame.elements_addText]

theorem verbatim {run : Run} (h : Tracks done s) (ht : token.event 0 = .ok (some (.verbatim run)))
    (hs : s.step (.verbatim (run.shift (byteLength (sources done)))) = .ok next) : Tracks (done ++ [token]) next := by
  obtain ⟨frames, root⟩ := s
  have hstack : Stack done frames := h.stack
  cases hstack with
  | nil =>
    cases hs
    exact h.same (.nil _) (List.forall_mem_nil _)
  | cons hstack ho =>
    cases hs
    rw [Token.sources_append, Text.byteLength_append, ← Run.shift_shift]
    refine h.innermost hstack (ho.verbatim ht) ?_
    rw [← Frame.add_shift]
    exact Frame.elements_add_text ..

theorem opening {content : Text} {tag : Tag} (h : Tracks done s) (hread : Tag.read 1 content = .ok tag) :
    Tracks (done ++ [.openTag content])
      ⟨Frame.shift (byteLength (sources done)) ⟨tag, 0, []⟩ :: s.frames, s.root⟩ := by
  refine h.same (.cons h.stack (opens_openTag hread)) ?_
  intro f hf e he
  rcases List.mem_cons.1 hf with rfl | hf
  · cases he
  · exact ⟨f, hf, he⟩

theorem empty {content : Text} {tag : Tag} (h : Tracks done s) (hread : Tag.read 1 content = .ok tag)
    (hs : Progress.complete s.frames s.root (Element.shift (byteLength (sources done))
      ⟨tag, ⟨0, byteLength (Token.emptyTag content).source⟩, []⟩) = .ok next) :
    Tracks (done ++ [.emptyTag content]) next := by
  refine complete h.stack (spells_emptyTag hread) ?_ ?_ (List.forall_mem_nil _) hs
  · exact fun f hf e he => (h.inside f hf e he).append _
  · exact fun e he => (h.root e he).append _

theorem closing {content : Text} (h : Tracks done s)
    (hs : s.step (.closing (closingName content)
      (Span.shift (byteLength (sources done)) ⟨0, byteLength (Token.closeTag content).source⟩)) = .ok next) :
    Tracks (done ++ [.closeTag content]) next := by
  obtain ⟨frames, root⟩ := s
  have hstack : Stack done frames := h.stack
  cases hstack with
  | nil => cases hs
  | @cons outside inside f outer hstack ho =>
    simp only [Progress.step] at hs
    split at hs
    · next hname =>
      rw [List.append_assoc]
      have hinside := List.forall_mem_cons.1 h.inside
      have hc : Progress.complete outer root ((f.close (byteLength (sources (inside ++ [.closeTag content])))).shift
          (byteLength (sources outside))) = .ok next := by
        rw [← Frame.close_shift]
        simpa [Span.shift, Nat.add_assoc] using hs
      refine complete hstack (ho.close hname) ?_ ?_ ?_ hc
      · rw [← List.append_assoc]
        exact fun g hg e he => (hinside.2 g hg e he).append _
      · rw [← List.append_assoc]
        exact fun e he => (h.root e he).append _
      · rw [← List.append_assoc, ← Frame.close_shift]
        exact fun e he => (hinside.1 e he).append _
    · cases hs

/-- One more token keeps all elements on their own tokens. -/
theorem takeIn {event : Option Event} (h : Tracks done s) (he : token.event (byteLength (sources done)) = .ok event)
    (hs : s.takeIn event = .ok next) : Tracks (done ++ [token]) next := by
  obtain ⟨first, hfirst, rfl⟩ := Token.event_eq_ok_iff.1 he
  cases Token.means_of_event hfirst with
  | nothing =>
    cases hs
    exact h.silent hfirst
  | text _ run => exact h.text hfirst hs
  | verbatim _ run => exact h.verbatim hfirst hs
  | opening hread =>
    cases hs
    exact h.opening hread
  | empty hread => exact h.empty hread hs
  | closing content => exact h.closing hs

/-- All elements met in a run of tokens stand by their own tokens. -/
theorem run {tokens : List Token} (h : Tracks done s) (hrun : s.run (byteLength (sources done)) tokens = .ok next) :
    Tracks (done ++ tokens) next := by
  induction tokens generalizing done s with
  | nil =>
    cases hrun
    rw [List.append_nil]
    exact h
  | cons token tokens ih =>
    rw [Progress.run] at hrun
    obtain ⟨event, he, hrun⟩ := bind_eq_ok_iff.1 hrun
    obtain ⟨middle, hs, hrun⟩ := bind_eq_ok_iff.1 hrun
    have hmiddle := h.takeIn he hs
    have hlast := ih hmiddle (by simpa using hrun)
    rwa [List.append_assoc] at hlast

end Tracks

/-! ## Documents -/

/-- Read alone, what tokens spell is a document. -/
theorem Spells.parse_sources {tokens : List Token} {e : Element} (hs : Spells tokens e)
    (hall : Token.readAll (sources tokens) = (tokens, none)) :
    Document.parse (sources tokens) = .ok ⟨e.shift 0, ⟨0, byteLength (sources tokens)⟩⟩ := by
  obtain ⟨inner, hsource⟩ := hs.source
  have hmark : dropMark (sources tokens) = sources tokens := by
    rw [hsource]
    rfl
  have hresume : Progress.start.resume 0 (sources tokens) = .ok (e.shift 0) :=
    Progress.resume_eq_ok_iff.2 ⟨tokens, ⟨[], some (e.shift 0)⟩, hall, hs.run .start 0, rfl⟩
  rw [Document.parse_eq, hmark, hresume]
  rfl

/-- The elements of a document stand by tokens of its text. -/
theorem exists_allStand_of_parse {t : Text} {d : Document} (hd : Document.parse t = .ok d) :
    ∃ tokens, Token.readAll (dropMark t) = (tokens, none) ∧ AllStand tokens d.root := by
  rw [Document.parse_eq] at hd
  cases hresume : Progress.start.resume 0 (dropMark t) with
  | error e =>
    rw [hresume] at hd
    cases hd
  | ok root =>
    rw [hresume] at hd
    cases hd
    obtain ⟨tokens, ⟨frames, _⟩, hall, hrun, hfinish⟩ := Progress.resume_eq_ok_iff.1 hresume
    have htracks := tracks_start.run hrun
    refine ⟨tokens, hall, htracks.root root ?_⟩
    unfold Progress.finish at hfinish
    split at hfinish <;> cases hfinish
    assumption

/-- The span of an element covers a text from `<` and the name to `>` that is read as the same element,
with its spans counted from the start of the element. -/
theorem Document.exists_parse_slice {t : Text} {d : Document} {e : Element} (hmark : t.head? ≠ some '\uFEFF')
    (hd : Document.parse t = .ok d) (he : e.Within d.root) :
    ∃ (s inner : Text) (root : Element), e.span.slice? t = some s ∧ s = '<' :: (e.tag.name.text ++ inner ++ ['>']) ∧
      Document.parse s = .ok ⟨root, ⟨0, byteLength s⟩⟩ ∧ e = root.shift e.span.start := by
  obtain ⟨tokens, hall, hstand⟩ := exists_allStand_of_parse hd
  rw [dropMark_eq_self hmark] at hall
  obtain ⟨before, own, after, first, rfl, hs, rfl⟩ := hstand e he
  have ht := (Token.reads_of_readAll hall).eq_append
  obtain ⟨inner, hinner⟩ := hs.source
  refine ⟨sources own, inner, first.shift 0, ?_, ?_, hs.parse_sources (Token.readAll_sources hall), ?_⟩
  · rw [Element.span_shift, hs.span, ht]
    simp only [Token.sources_append, List.append_nil]
    exact Text.sliceBytes?_append ..
  · simpa using hinner
  · rw [Element.shift_shift, Element.span_shift, hs.span]
    rfl

/-- A document with references, a quoted mark, a section, a comment and two-byte characters. -/
def Document.nestedText : Text :=
  ["<!-- é -->", "<t:a k='1>2'>", "é", "<![CDATA[<x>]]>", "<b n='&lt;'>", "&#233;", "<c/>", "</b>", " \n",
    "</t:a>"].flatMap String.toList

theorem Document.exists_parse_slice_nested :
    ∃ (d : Document) (e : Element), nestedText.head? ≠ some '\uFEFF' ∧ Document.parse nestedText = .ok d ∧
      e.Within d.root ∧ e.span = ⟨59, 63⟩ ∧
      ∃ (s inner : Text) (root : Element), e.span.slice? nestedText = some s ∧
        s = '<' :: (e.tag.name.text ++ inner ++ ['>']) ∧ Document.parse s = .ok ⟨root, ⟨0, byteLength s⟩⟩ ∧
        e = root.shift e.span.start := by
  have hpath : ((Document.parse nestedText).toOption.bind fun d => (d.root.child? ['b']).bind fun b =>
      (b.child? ['c']).map Element.span) = some ⟨59, 63⟩ := by decide +kernel
  simp only [Option.bind_eq_some_iff, Option.map_eq_some_iff, toOption_eq_some_iff] at hpath
  obtain ⟨d, hd, b, hb, c, hc, hspan⟩ := hpath
  have hwithin : c.Within d.root :=
    .child (List.mem_of_find?_eq_some hb) (.child (List.mem_of_find?_eq_some hc) (.self c))
  exact ⟨d, c, by decide, hd, hwithin, hspan, Document.exists_parse_slice (by decide) hd hwithin⟩

end LintFixture.Markup
