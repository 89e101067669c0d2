import LintFixture.Proofs.Markup.Children
import LintFixture.Proofs.Markup.Content

/-!
# The tree of a document

Every element of a document is written by tokens of its own: an empty tag, or a
start tag, content and the end tag of that name (`Content.exists_written`). Its
children are what that content leaves (`Element.Holds`), and in preorder the
elements are the start and empty tags in document order (`Content.preorder`).
-/

namespace LintFixture.Markup

open Text (byteLength)
open Token (sources)

/-! ## Kinds of content -/

namespace Element

variable {e : Element}

theorem runs_eq_nil_iff : e.runs = [] ↔ ∀ child ∈ e.children, ∃ inner, child = .element inner := by
  rw [runs, List.filterMap_eq_nil_iff]
  refine forall₂_congr fun child _ => ?_
  cases child <;> simp [Child.run?]

theorem elements_eq_nil_iff : e.elements = [] ↔ ∀ child ∈ e.children, ∃ run, child = .text run := by
  rw [elements, List.filterMap_eq_nil_iff]
  refine forall₂_congr fun child _ => ?_
  cases child <;> simp [Child.element?]

theorem children_eq_nil_iff : e.children = [] ↔ e.runs = [] ∧ e.elements = [] := by
  rw [runs_eq_nil_iff, elements_eq_nil_iff]
  cases e.children with
  | nil => simp
  | cons child children =>
    cases child <;> simp

theorem exists_text_mem_iff : (∃ run, Child.text run ∈ e.children) ↔ e.runs ≠ [] := by
  simp only [← mem_runs_iff, ne_eq, List.eq_nil_iff_forall_not_mem, not_forall, not_not]

theorem exists_element_mem_iff : (∃ inner, Child.element inner ∈ e.children) ↔ e.elements ≠ [] := by
  simp only [← mem_elements_iff, ne_eq, List.eq_nil_iff_forall_not_mem, not_forall, not_not]

/-- What kind of content there is, by what stands in it. -/
theorem layout_cases (e : Element) :
    (e.layout = .empty ∧ e.runs = [] ∧ e.elements = []) ∨
    (e.layout = .elements ∧ e.runs = [] ∧ e.elements ≠ []) ∨
    ((∃ first others, e.runs = first :: others ∧ e.layout = .text (joinRuns first others)) ∧ e.elements = []) ∨
    (e.layout = .mixed ∧ e.runs ≠ [] ∧ e.elements ≠ []) := by
  unfold layout
  split
  · next hr he => exact .inl ⟨rfl, hr, he⟩
  · next first others hr he => exact .inr (.inr (.inl ⟨⟨first, others, hr, rfl⟩, he⟩))
  · next hr he => exact .inr (.inl ⟨rfl, hr, by simp [he]⟩)
  · next hr he => exact .inr (.inr (.inr ⟨rfl, by simp [hr], by simp [he]⟩))

/-- What an element holds, by the pieces that stand directly inside it. -/
structure Holds (e : Element) (pieces : List Piece) : Prop where
  children : e.children = kept false pieces
  empty : e.layout = .empty ↔ kept false pieces = []
  elements : e.layout = .elements ↔
    kept false pieces ≠ [] ∧ ∀ child ∈ kept false pieces, ∃ inner, child = .element inner
  text : (∃ run, e.layout = .text run) ↔
    kept false pieces ≠ [] ∧ ∀ child ∈ kept false pieces, ∃ run, child = .text run
  mixed : e.layout = .mixed ↔
    (∃ run, .text run ∈ kept false pieces) ∧ ∃ inner, .element inner ∈ kept false pieces
  joined : ∀ run, e.layout = .text run → run.text = e.innerText
  innerText : e.elements = [] → e.innerText = pieces.flatMap Piece.text

end Element

/-! ## What is left out -/

/-- All elements are kept. -/
theorem filterMap_element?_kept (after : Bool) (pieces : List Piece) :
    (kept after pieces).filterMap Child.element? = pieces.filterMap Piece.element? := by
  induction pieces generalizing after with
  | nil => rfl
  | cons piece pieces ih =>
    cases piece with
    | decoded run =>
      unfold kept
      split
      · exact ih after
      · exact ih false
    | verbatim run => exact ih false
    | element e => exact congrArg (e :: ·) (ih true)

/-- Without elements nothing is left out. -/
theorem flatMap_text_kept {pieces : List Piece} (h : pieces.filterMap Piece.element? = []) :
    ((kept false pieces).filterMap Child.run?).flatMap Run.text = pieces.flatMap Piece.text := by
  induction pieces with
  | nil => rfl
  | cons piece pieces ih =>
    cases piece with
    | element e => cases h
    | decoded run => exact congrArg (run.text ++ ·) (ih h)
    | verbatim run => exact congrArg (run.text ++ ·) (ih h)

theorem Element.holds_of_children {e : Element} {pieces : List Piece} (h : e.children = kept false pieces) :
    e.Holds pieces where
  children := h
  empty := by
    rw [← h, children_eq_nil_iff]
    rcases e.layout_cases with ⟨hl, hr⟩ | ⟨hl, hr⟩ | ⟨⟨first, others, hr, hl⟩, he⟩ | ⟨hl, hr⟩ <;> simp [*]
  elements := by
    rw [← h, ← runs_eq_nil_iff, ne_eq, children_eq_nil_iff]
    rcases e.layout_cases with ⟨hl, hr⟩ | ⟨hl, hr⟩ | ⟨⟨first, others, hr, hl⟩, he⟩ | ⟨hl, hr⟩ <;> simp [*]
  text := by
    rw [← h, ← elements_eq_nil_iff, ne_eq, children_eq_nil_iff]
    rcases e.layout_cases with ⟨hl, hr⟩ | ⟨hl, hr⟩ | ⟨⟨first, others, hr, hl⟩, he⟩ | ⟨hl, hr⟩ <;> simp [*]
  mixed := by
    rw [← h, exists_text_mem_iff, exists_element_mem_iff]
    rcases e.layout_cases with ⟨hl, hr⟩ | ⟨hl, hr⟩ | ⟨⟨first, others, hr, hl⟩, he⟩ | ⟨hl, hr⟩ <;> simp [*]
  joined := by
    intro run hrun
    rcases e.layout_cases with ⟨hl, -⟩ | ⟨hl, -⟩ | ⟨⟨first, others, hr, hl⟩, -⟩ | ⟨hl, -⟩
    · cases hl.symm.trans hrun
    · cases hl.symm.trans hrun
    · cases hl.symm.trans hrun
      rw [innerText, hr]
      rfl
    · cases hl.symm.trans hrun
  innerText := by
    intro he
    rw [elements, h, filterMap_element?_kept] at he
    rw [innerText, runs, h, flatMap_text_kept he]

/-! ## Each element by its own tokens -/

/-- The tokens that begin at `offset` write the element, and the pieces stand directly inside it. -/
inductive Written (offset : Nat) : List Token → List Piece → Element → Prop
  | empty {content : Text} {tag : Tag} (hread : Tag.read (offset + 1) content = .ok tag) :
    Written offset [.emptyTag content] [] ⟨tag, ⟨offset, offset + byteLength (Token.emptyTag content).source⟩, []⟩
  | pair {content close : Text} {tag : Tag} {inside : List Token} {pieces : List Piece}
    (hread : Tag.read (offset + 1) content = .ok tag)
    (hinside : Content (offset + byteLength (Token.openTag content).source) inside pieces)
    (hclose : closingName close = tag.name.text) :
    Written offset (.openTag content :: (inside ++ [.closeTag close])) pieces
      ⟨tag, ⟨offset, offset + byteLength (sources (.openTag content :: (inside ++ [.closeTag close])))⟩,
        kept false pieces⟩

/-- Some of the tokens, which begin at `offset`, write the element. -/
def WrittenIn (offset : Nat) (tokens : List Token) (e : Element) : Prop :=
  ∃ before own after pieces, tokens = before ++ own ++ after ∧
    Written (offset + byteLength (sources before)) own pieces e

theorem Written.holds {offset : Nat} {own : List Token} {pieces : List Piece} {e : Element}
    (h : Written offset own pieces e) : e.Holds pieces := by
  cases h <;> exact Element.holds_of_children rfl

theorem Written.writtenIn {offset : Nat} {own : List Token} {pieces : List Piece} {e : Element}
    (h : Written offset own pieces e) : WrittenIn offset own e :=
  ⟨[], own, [], pieces, (List.append_nil own).symm, by simpa using h⟩

namespace WrittenIn

variable {offset : Nat} {tokens : List Token} {e : Element}

theorem append_left (front : List Token) (h : WrittenIn (offset + byteLength (sources front)) tokens e) :
    WrittenIn offset (front ++ tokens) e := by
  obtain ⟨before, own, after, pieces, rfl, hw⟩ := h
  refine ⟨front ++ before, own, after, pieces, by simp, ?_⟩
  simpa [Nat.add_assoc] using hw

theorem append_right (h : WrittenIn offset tokens e) (more : List Token) : WrittenIn offset (tokens ++ more) e := by
  obtain ⟨before, own, after, pieces, rfl, hw⟩ := h
  exact ⟨before, own, after ++ more, pieces, by simp, hw⟩

end WrittenIn

/-- Every element of content, at any depth, is written by some of its tokens. -/
theorem Content.exists_written {offset : Nat} {tokens : List Token} {pieces : List Piece}
    (h : Content offset tokens pieces) {e inner : Element} (he : e ∈ pieces.filterMap Piece.element?)
    (hin : inner.Within e) : WrittenIn offset tokens inner := by
  induction h generalizing e with
  | nil => cases he
  | @silent _ token _ _ _ _ ih => exact WrittenIn.append_left [token] (by simpa using ih he hin)
  | @run _ chars _ _ _ _ _ ih => exact WrittenIn.append_left [.run chars] (by simpa using ih he hin)
  | @cdata _ body _ _ _ ih => exact WrittenIn.append_left [.cdata body] (by simpa using ih he hin)
  | @empty offset content tag tokens pieces hread _ ih =>
    rcases List.mem_cons.1 he with rfl | he
    · cases hin with
      | self => exact (Written.empty hread).writtenIn.append_right tokens
      | child hc _ => cases hc
    · exact WrittenIn.append_left [.emptyTag content] (by simpa using ih he hin)
  | @element offset stop content close tag inside tokens within pieces hread hinside hclose hstop _ ihinside ih =>
    subst hstop
    have hsplit : Token.openTag content :: (inside ++ .closeTag close :: tokens) =
        (.openTag content :: (inside ++ [.closeTag close])) ++ tokens := by simp
    rw [hsplit]
    rcases List.mem_cons.1 he with rfl | he
    · refine WrittenIn.append_right ?_ tokens
      cases hin with
      | self => exact (Written.pair hread hinside hclose).writtenIn
      | child hc hin =>
        -- the elements among the children are those among the pieces between the two tags
        rw [Element.elements, filterMap_element?_kept] at hc
        have hwritten := (ihinside hc hin).append_right [.closeTag close]
        exact WrittenIn.append_left [.openTag content] (by simpa using hwritten)
    · exact WrittenIn.append_left _ (ih he hin)

/-! ## Preorder -/

mutual

/-- The element and all elements inside it, each before those inside it. -/
def Element.preorder : Element → List Element
  | ⟨tag, span, children⟩ => ⟨tag, span, children⟩ :: Child.preorderAll children

def Child.preorderAll : List (Child Element) → List Element
  | [] => []
  | .text _ :: children => Child.preorderAll children
  | .element e :: children => e.preorder ++ Child.preorderAll children

end

theorem Child.preorderAll_eq (children : List (Child Element)) :
    Child.preorderAll children = (children.filterMap Child.element?).flatMap Element.preorder := by
  induction children with
  | nil => rfl
  | cons child children ih =>
    cases child with
    | text run => exact ih
    | element e => exact congrArg (e.preorder ++ ·) ih

/-- Where the start and empty tags begin, and what stands in them, in document order. -/
def Token.tagContents (offset : Nat) : List Token → List (Nat × Text)
  | [] => []
  | token :: tokens =>
    let later := tagContents (offset + byteLength token.source) tokens
    match token with
    | .openTag content | .emptyTag content => (offset, content) :: later
    | _ => later

/-- The element has the name and the attributes in the tag, and begins where the tag does. -/
def BeginsWith (written : Nat × Text) (e : Element) : Prop :=
  Tag.read (written.1 + 1) written.2 = .ok e.tag ∧ e.span.start = written.1

theorem Token.tagContents_append (offset : Nat) (front back : List Token) :
    tagContents offset (front ++ back) =
      tagContents offset front ++ tagContents (offset + byteLength (sources front)) back := by
  induction front generalizing offset with
  | nil => rfl
  | cons token front ih =>
    cases token <;> simp [tagContents, ih, Nat.add_assoc]

theorem Content.preorder {offset : Nat} {tokens : List Token} {pieces : List Piece} (h : Content offset tokens pieces) :
    List.Forall₂ BeginsWith (Token.tagContents offset tokens)
      ((pieces.filterMap Piece.element?).flatMap Element.preorder) := by
  induction h with
  | nil => exact .nil
  | @silent _ token _ _ ht _ ih => cases token <;> first | exact ih | cases ht
  | run _ _ ih => exact ih
  | cdata _ ih => exact ih
  | empty hread _ ih => exact .cons ⟨hread, rfl⟩ ih
  | @element offset stop content close tag inside tokens within pieces hread _ _ hstop _ ihinside ih =>
    have hinside : List.Forall₂ BeginsWith
        (Token.tagContents (offset + byteLength (Token.openTag content).source) inside)
        (Child.preorderAll (kept false within)) := by
      rwa [Child.preorderAll_eq, filterMap_element?_kept]
    have hoffset : offset + byteLength (Token.openTag content).source + byteLength (sources inside) +
        byteLength (Token.closeTag close).source = stop := by
      simp [hstop, Nat.add_assoc]
    refine .cons ⟨hread, rfl⟩ ?_
    rw [Token.tagContents_append]
    refine List.rel_append hinside ?_
    rw [← hoffset] at ih
    exact ih

/-! ## Main statement -/

/-- The tree of a document is written by its tokens: nothing between the tags of an element is lost,
doubled or moved but blank text after an element, which is left out. -/
theorem Document.written_of_parse {t : Text} {d : Document} (h : Document.parse t = .ok d) :
    ∃ tokens pieces, Token.readAll (dropMark t) = (tokens, none) ∧ sources tokens = dropMark t ∧
      Content 0 tokens pieces ∧ pieces.filterMap Piece.element? = [d.root] ∧
      List.Forall₂ BeginsWith (Token.tagContents 0 tokens) d.root.preorder ∧
      ∀ e : Element, e.Within d.root → ∃ before own after inside, tokens = before ++ own ++ after ∧
        Written (byteLength (sources before)) own inside e ∧ e.Holds inside := by
  obtain ⟨tokens, pieces, hall, hcontent, hroot⟩ := exists_content_of_parse h
  have hsources : sources tokens = dropMark t := by
    simpa using (Token.reads_of_readAll hall).eq_append.symm
  have hpreorder := hcontent.preorder
  rw [hroot, List.flatMap_singleton] at hpreorder
  refine ⟨tokens, pieces, hall, hsources, hcontent, hroot, hpreorder, fun e he => ?_⟩
  obtain ⟨before, own, after, inside, hsplit, hw⟩ := hcontent.exists_written (hroot ▸ List.mem_singleton_self _) he
  rw [Nat.zero_add] at hw
  exact ⟨before, own, after, inside, hsplit, hw, hw.holds⟩

/-- An element with blank text before, between and behind elements, a blank section and a comment between two runs. -/
def Document.laidOutText : Text := "<a> <b/>\n<c/><![CDATA[ ]]>x<!-- c -->&lt; </a>\n".toList

theorem Document.written_of_parse_laid_out :
    ∃ d : Document, Document.parse laidOutText = .ok d ∧ d.root.layout = .mixed ∧
      d.root.runs.map Run.text = [[' '], [' '], ['x'], ['<', ' ']] ∧
      d.root.preorder.map Element.name = [['a'], ['b'], ['c']] ∧
      ∃ tokens pieces, Token.readAll (dropMark laidOutText) = (tokens, none) ∧ sources tokens = dropMark laidOutText ∧
        Content 0 tokens pieces ∧ pieces.filterMap Piece.element? = [d.root] ∧
        List.Forall₂ BeginsWith (Token.tagContents 0 tokens) d.root.preorder ∧
        ∀ e : Element, e.Within d.root → ∃ before own after inside, tokens = before ++ own ++ after ∧
          Written (byteLength (sources before)) own inside e ∧ e.Holds inside := by
  have hfacts : (Document.parse laidOutText).toOption.map (fun d =>
      (d.root.layout, d.root.runs.map Run.text, d.root.preorder.map Element.name)) =
      some (.mixed, [[' '], [' '], ['x'], ['<', ' ']], [['a'], ['b'], ['c']]) := by decide +kernel
  simp only [Option.map_eq_some_iff, toOption_eq_some_iff, Prod.mk.injEq] at hfacts
  obtain ⟨d, hd, hlayout, hruns, hnames⟩ := hfacts
  exact ⟨d, hd, hlayout, hruns, hnames, Document.written_of_parse hd⟩

end LintFixture.Markup
