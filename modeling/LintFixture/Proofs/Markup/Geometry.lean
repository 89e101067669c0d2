import LintFixture.Proofs.Markup.Attribute
import LintFixture.Proofs.Markup.Tree

/-!
# The places of elements

The pieces of content are laid one behind the other (`Content.laid`). So the spans of
an element lie in the text, and those of its children behind each other, between its
start tag and its end (`Document.lies_of_parse`).
-/

namespace LintFixture.Markup

open Text (byteLength)
open Token (sources)

/-! ## Spans in a text -/

/-- The byte offset is that of a character of the text, or of its end. -/
def IsBoundary (t : Text) (n : Nat) : Prop := ∃ before after, t = before ++ after ∧ byteLength before = n

/-- The span lies in the text and cuts no character. -/
structure Span.IsIn (s : Span) (t : Text) : Prop where
  ordered : s.start ≤ s.stop
  bounded : s.stop ≤ byteLength t
  start : IsBoundary t s.start
  stop : IsBoundary t s.stop

theorem Span.Covers.isIn {s : Span} {t part : Text} (h : s.Covers 0 t part) : s.IsIn t where
  ordered := h.ordered
  bounded := by
    have hstop := h.stop_le
    omega
  start := by
    obtain ⟨before, after, rfl, rfl⟩ := h
    exact ⟨before, part ++ after, by simp, by simp⟩
  stop := by
    obtain ⟨before, after, rfl, rfl⟩ := h
    exact ⟨before ++ part, after, rfl, by simp⟩

/-- The span from the first of several, laid one behind the other, to the last is in the text as they are. -/
theorem Element.span_joinRuns {start : Nat} {t : Text} {first : Run} {others : List Run}
    (h : ((first :: others).map Run.span).Pairwise fun s r => s.stop ≤ r.start)
    (hin : ∀ run ∈ first :: others, run.span.IsIn t ∧ start ≤ run.span.start) :
    (joinRuns first others).span.IsIn t ∧ start ≤ (joinRuns first others).span.start ∧
      ∃ last ∈ first :: others, (joinRuns first others).span.stop = last.span.stop := by
  have hfirst := hin first List.mem_cons_self
  have hlast := hin ((first :: others).getLast (by simp)) (List.getLast_mem _)
  have hordered : first.span.start ≤ ((first :: others).getLast (by simp)).span.stop := by
    rcases List.mem_cons.1 (List.getLast_mem (show first :: others ≠ [] by simp)) with heq | hmem
    · rw [heq]
      exact hfirst.1.ordered
    · rw [List.map_cons, List.pairwise_cons] at h
      have hbehind := h.1 _ (List.mem_map_of_mem hmem)
      have hself := hfirst.1.ordered
      have hother := hlast.1.ordered
      omega
  exact ⟨⟨hordered, hlast.1.bounded, hfirst.1.start, hlast.1.stop⟩, hfirst.2, _, List.getLast_mem _, rfl⟩

/-! ## The pieces of content -/

def Piece.span : Piece → Span
  | .decoded run | .verbatim run => run.span
  | .element e => e.span

def Child.span : Child Element → Span
  | .text run => run.span
  | .element e => e.span

/-- The pieces of content are laid one behind the other. -/
theorem Content.laid {offset : Nat} {tokens : List Token} {pieces : List Piece} (h : Content offset tokens pieces) :
    Laid offset (sources tokens) (pieces.map Piece.span) := by
  induction h with
  | nil => exact .nil _ _
  | silent _ _ ih => exact ih.skip _ rfl
  | run _ _ ih => exact ih.cons _ rfl rfl
  | cdata _ ih => exact ih.cons _ rfl rfl
  | empty _ _ ih => exact ih.cons _ rfl rfl
  | @element offset stop content close tag inside tokens inner pieces _ _ _ hstop _ _ ih =>
    have hlaid := ih.cons (s := ⟨offset, stop⟩) (sources (.openTag content :: (inside ++ [.closeTag close]))) hstop rfl
    simpa [Piece.span] using hlaid

/-- What is left out leaves the order as it is. -/
theorem map_span_kept_sublist (after : Bool) (pieces : List Piece) :
    ((kept after pieces).map Child.span).Sublist (pieces.map Piece.span) := by
  induction pieces generalizing after with
  | nil => exact .slnil
  | cons piece pieces ih =>
    cases piece with
    | decoded run =>
      unfold kept
      split
      · exact (ih after).cons _
      · exact (ih false).cons_cons _
    | verbatim run => exact (ih false).cons_cons _
    | element e => exact (ih true).cons_cons _

/-! ## The parts of an element -/

/-- The spans of a tag lie in the text around it, and that of its name covers the name. -/
theorem Tag.lies_of_read {content : Text} {tag : Tag} (front back : Text)
    (h : Tag.read (byteLength front) content = .ok tag) :
    tag.nameSpan = ⟨byteLength front, byteLength front + byteLength tag.name.text⟩ ∧
      tag.nameSpan.slice? (front ++ (content ++ back)) = some tag.name.text ∧
      ∀ s ∈ tag.spans, s.IsIn (front ++ (content ++ back)) := by
  have hfront : byteLength front = 0 + byteLength front := (Nat.zero_add _).symm
  obtain ⟨rest, hcontent, hname, -⟩ := Tag.exists_of_read h
  refine ⟨hname, ?_, ?_⟩
  · have hwhole : tag.nameSpan.Covers (byteLength front) tag.name.text tag.name.text := by
      rw [hname]
      exact .whole _ _
    rw [hcontent, List.append_assoc]
    exact ((hwhole.append (rest ++ back)).prepend front hfront).slice?
  · intro s hs
    obtain ⟨part, hpart⟩ := (Tag.laid_of_read h).covers s hs
    exact ((hpart.append back).prepend front hfront).isIn

/-- What stands in a start or empty tag. -/
def Token.tagContent? : Token → Option Text
  | .openTag content | .emptyTag content => some content
  | _ => none

theorem Token.exists_source_eq {token : Token} {content : Text} (h : token.tagContent? = some content) :
    ∃ last, token.source = '<' :: content ++ last := by
  cases token <;> cases h
  · exact ⟨['>'], rfl⟩
  · exact ⟨['/', '>'], rfl⟩

namespace Element

/-- The token reads as the tag of the element and begins where the element does; it ends at `stop`. -/
def StartTag (t : Text) (e : Element) (stop : Nat) : Prop :=
  ∃ before token after content, Token.readAll t = (before ++ token :: after, none) ∧ token.tagContent? = some content ∧
    Tag.read (e.span.start + 1) content = .ok e.tag ∧ byteLength (sources before) = e.span.start ∧
    stop = e.span.start + byteLength token.source

/-- The text of an element without elements, joined. -/
def joined? (e : Element) : Option Run :=
  match e.layout with
  | .text run => some run
  | _ => none

/-- The spans of the elements and texts directly inside, the joined text included. -/
def innerSpans (e : Element) : List Span := e.children.map Child.span ++ e.joined?.toList.map Run.span

/-- Where the element and its parts lie in the text. -/
structure Lies (t : Text) (e : Element) : Prop where
  whole : e.span.IsIn t
  name : e.tag.nameSpan = ⟨e.span.start + 1, e.span.start + 1 + byteLength e.tag.name.text⟩
  sliced : e.tag.nameSpan.slice? t = some e.tag.name.text
  tag : ∀ s ∈ e.tag.spans, s.IsIn t
  inner : ∃ stop, e.StartTag t stop ∧ ∀ s ∈ e.innerSpans, s.IsIn t ∧ stop ≤ s.start ∧ s.stop ≤ e.span.stop
  siblings : (e.children.map Child.span).Pairwise fun s r => s.stop ≤ r.start

theorem map_span_runs_sublist (e : Element) : (e.runs.map Run.span).Sublist (e.children.map Child.span) := by
  rw [runs]
  induction e.children with
  | nil => exact .slnil
  | cons child children ih =>
    cases child with
    | text run => exact ih.cons_cons _
    | element inner => exact ih.cons _

theorem joined?_eq_some {e : Element} {run : Run} (h : e.joined? = some run) :
    ∃ first others, e.runs = first :: others ∧ run = joinRuns first others := by
  unfold joined? at h
  rcases e.layout_cases with ⟨hl, -⟩ | ⟨hl, -⟩ | ⟨⟨first, others, hr, hl⟩, -⟩ | ⟨hl, -⟩
  · simp [hl] at h
  · simp [hl] at h
  · simp only [hl, Option.some.injEq] at h
    exact ⟨first, others, hr, h.symm⟩
  · simp [hl] at h

/-- What is known of the children holds for the joined text too. -/
theorem forall_innerSpans {t : Text} {start stop : Nat} {e : Element}
    (hsiblings : (e.children.map Child.span).Pairwise fun s r => s.stop ≤ r.start)
    (hin : ∀ s ∈ e.children.map Child.span, s.IsIn t ∧ start ≤ s.start ∧ s.stop ≤ stop) :
    ∀ s ∈ e.innerSpans, s.IsIn t ∧ start ≤ s.start ∧ s.stop ≤ stop := by
  have hruns : ∀ run ∈ e.runs, run.span.IsIn t ∧ start ≤ run.span.start ∧ run.span.stop ≤ stop :=
    fun run hrun => hin run.span (e.map_span_runs_sublist.subset (List.mem_map_of_mem hrun))
  intro s hs
  rcases List.mem_append.1 hs with hs | hs
  · exact hin s hs
  · obtain ⟨run, hrun, rfl⟩ := List.mem_map.1 hs
    obtain ⟨first, others, heq, rfl⟩ := joined?_eq_some (Option.mem_toList.1 hrun)
    have hordered := hsiblings.sublist e.map_span_runs_sublist
    rw [heq] at hruns hordered
    obtain ⟨hisIn, hstart, last, hlast, hstop⟩ :=
      span_joinRuns hordered fun run hrun => ⟨(hruns run hrun).1, (hruns run hrun).2.1⟩
    rw [hstop]
    exact ⟨hisIn, hstart, (hruns last hlast).2.2⟩

end Element

namespace Written

variable {offset : Nat} {own : List Token} {pieces : List Piece} {e : Element}

/-- The tokens of an element are its tag, and others in which its children are laid. -/
theorem exists_start (h : Written offset own pieces e) :
    ∃ token behind content, own = token :: behind ∧ token.tagContent? = some content ∧
      Tag.read (offset + 1) content = .ok e.tag ∧ e.span = ⟨offset, offset + byteLength (sources own)⟩ ∧
      Laid (offset + byteLength token.source) (sources behind) (e.children.map Child.span) := by
  cases h with
  | @empty content tag hread => exact ⟨_, [], content, rfl, rfl, hread, by simp, .nil _ _⟩
  | @pair content close tag inside pieces hread hinside hclose =>
    refine ⟨_, inside ++ [.closeTag close], content, rfl, rfl, hread, rfl, ?_⟩
    rw [Token.sources_append]
    exact (hinside.laid.append _).sublist (map_span_kept_sublist false pieces)

/-- An element that some of the tokens of a text write lies there. -/
theorem lies {t : Text} {before after : List Token} (h : Written (byteLength (sources before)) own pieces e)
    (hall : Token.readAll t = (before ++ own ++ after, none)) : e.Lies t := by
  obtain ⟨token, behind, content, rfl, htoken, hread, hspan, hlaid⟩ := h.exists_start
  obtain ⟨last, hsource⟩ := Token.exists_source_eq htoken
  have ht : t = sources before ++ sources (token :: behind) ++ sources after := by
    have heq := (Token.reads_of_readAll hall).eq_append
    simpa using heq
  have hstart : e.span.start = byteLength (sources before) := by rw [hspan]
  have hstop : e.span.stop = byteLength (sources before) + byteLength token.source + byteLength (sources behind) := by
    rw [hspan, Token.sources_cons, Text.byteLength_append, Nat.add_assoc]
  -- the text around what stands in the tag, and around what stands behind it
  have htag : t = (sources before ++ ['<']) ++ (content ++ (last ++ sources behind ++ sources after)) := by
    rw [ht, Token.sources_cons, hsource]
    simp
  have hbehind : t = (sources before ++ token.source) ++ (sources behind ++ sources after) := by
    rw [ht, Token.sources_cons]
    simp
  have hfront : byteLength (sources before ++ ['<']) = e.span.start + 1 := by
    rw [hstart, Text.byteLength_append]
    rfl
  obtain ⟨hname, hsliced, htagSpans⟩ :=
    Tag.lies_of_read (sources before ++ ['<']) (last ++ sources behind ++ sources after)
      (by rwa [hfront, hstart])
  rw [← htag] at hsliced htagSpans
  rw [hfront] at hname
  have hinner : Laid 0 t (e.children.map Child.span) := by
    rw [hbehind]
    exact (hlaid.append _).skip _ (by simp)
  refine ⟨?_, hname, hsliced, htagSpans, ⟨e.span.start + byteLength token.source, ?_, ?_⟩, hinner.ordered⟩
  · have hwhole : e.span.Covers 0 t (sources (token :: behind)) :=
      ⟨sources before, sources after, ht, by rw [hspan, Nat.zero_add]⟩
    exact hwhole.isIn
  · exact ⟨before, token, behind ++ after, content, by simpa using hall, htoken, by rwa [hstart], hstart.symm, rfl⟩
  · refine Element.forall_innerSpans hinner.ordered fun s hs => ?_
    obtain ⟨part, hpart⟩ := hinner.covers s hs
    obtain ⟨part', hpart'⟩ := hlaid.covers s hs
    rw [hstart, hstop]
    exact ⟨hpart.isIn, hpart'.offset_le, hpart'.stop_le⟩

end Written

/-! ## Main statement -/

/-- In a text without a byte order mark all spans of the document lie where its parts are written: in the text and
on characters, those inside an element between its start tag and its end and one behind the other. -/
theorem Document.lies_of_parse {t : Text} {d : Document} (hmark : t.head? ≠ some '\uFEFF')
    (h : Document.parse t = .ok d) :
    d.span = ⟨0, byteLength t⟩ ∧ d.span.IsIn t ∧ ∀ e : Element, e.Within d.root → e.Lies t := by
  obtain ⟨tokens, pieces, hall, hcontent, hroot⟩ := exists_content_of_parse h
  rw [dropMark_eq_self hmark] at hall
  have hspan : d.span = ⟨0, byteLength t⟩ := by
    obtain ⟨root, -, h⟩ := bind_eq_ok_iff.1 h
    cases h
    rfl
  refine ⟨hspan, ?_, fun e he => ?_⟩
  · have hwhole := (Span.Covers.whole 0 t).isIn
    rwa [Nat.zero_add, ← hspan] at hwhole
  · obtain ⟨before, own, after, inside, rfl, hw⟩ := hcontent.exists_written (hroot ▸ List.mem_singleton_self _) he
    rw [Nat.zero_add] at hw
    exact hw.lies hall

/-- Text, an element with an attribute and two runs around a comment, a blank that is left out and an empty element. -/
def Document.placedText : Text := "<r>é<p:t n='é'>a<!-- c --><![CDATA[b]]></p:t> <e/></r>".toList

theorem Document.lies_of_parse_placed :
    ∃ (d : Document) (e : Element), placedText.head? ≠ some '\uFEFF' ∧ Document.parse placedText = .ok d ∧
      e.Within d.root ∧ e.innerSpans = [⟨17, 18⟩, ⟨28, 41⟩, ⟨17, 41⟩] ∧
      d.span = ⟨0, byteLength placedText⟩ ∧ d.span.IsIn placedText ∧ e.Lies placedText := by
  have hpath : ((Document.parse placedText).toOption.bind fun d => (d.root.child? ['t']).map Element.innerSpans) =
      some [⟨17, 18⟩, ⟨28, 41⟩, ⟨17, 41⟩] := by decide +kernel
  simp only [Option.bind_eq_some_iff, Option.map_eq_some_iff, toOption_eq_some_iff] at hpath
  obtain ⟨d, hd, e, he, hspans⟩ := hpath
  have hwithin : e.Within d.root := .child (List.mem_of_find?_eq_some he) (.self e)
  obtain ⟨hspan, hisIn, hlies⟩ := Document.lies_of_parse (by decide) hd
  exact ⟨d, e, by decide, hd, hwithin, hspans, hspan, hisIn, hlies e hwithin⟩

end LintFixture.Markup
