import LintFixture.Proofs.Markup.Nesting

/-!
# The content of an element

A grammar of what tokens stand for, without a stack: comments stand for nothing,
runs and sections for text, and a start tag, more content and the end tag of that
name for an element (`Content`). Of the blank text in it only what follows an
element is left out (`kept`).

The builder computes it: the tokens of content put its pieces, one after the
other, into whatever is open (`Content.run_eq`). All tokens that pass the reader's
check are content with some elements still open (`exists_pending`), and what is built
then is told by these alone (`Pending.run`).
-/

namespace LintFixture.Markup

open Text (byteLength)
open Token (sources)

/-! ## Pieces -/

/-- What stands directly inside an element, as it is written. -/
inductive Piece where
  /-- Text with its references resolved. -/
  | decoded (run : Run)
  /-- The content of a CDATA section. -/
  | verbatim (run : Run)
  | element (e : Element)

namespace Piece

def element? : Piece → Option Element
  | .decoded _ | .verbatim _ => none
  | .element e => some e

/-- Its text; an element adds none. -/
def text : Piece → Text
  | .decoded run | .verbatim run => run.text
  | .element _ => []

end Piece

/-- The children that pieces leave: all but blank decoded text that follows an element, where
`after` says whether the first piece does. -/
def kept (after : Bool) : List Piece → List (Child Element)
  | [] => []
  | .decoded run :: pieces =>
    if after && Text.allBlank run.text then kept after pieces else .text run :: kept false pieces
  | .verbatim run :: pieces => .text run :: kept false pieces
  | .element e :: pieces => .element e :: kept true pieces

@[simp] theorem kept_nil (after : Bool) : kept after [] = [] := rfl

/-- A token that stands for nothing. -/
def Token.isSilent : Token → Bool
  | .comment _ | .instruction _ => true
  | .doctype _ body => !body.all isGap
  | _ => false

/-- The tokens that begin at the byte `offset` are the pieces, one after the other. -/
inductive Content : Nat → List Token → List Piece → Prop
  | nil (offset : Nat) : Content offset [] []
  | silent {offset : Nat} {token : Token} {tokens : List Token} {pieces : List Piece} (ht : token.isSilent = true)
    (rest : Content (offset + byteLength token.source) tokens pieces) : Content offset (token :: tokens) pieces
  | run {offset : Nat} {chars text : Text} {tokens : List Token} {pieces : List Piece}
    (htext : unescape chars = .ok text) (rest : Content (offset + byteLength chars) tokens pieces) :
    Content offset (.run chars :: tokens) (.decoded ⟨text, ⟨offset, offset + byteLength chars⟩⟩ :: pieces)
  | cdata {offset : Nat} {body : Text} {tokens : List Token} {pieces : List Piece}
    (rest : Content (offset + byteLength (Token.cdata body).source) tokens pieces) :
    Content offset (.cdata body :: tokens)
      (.verbatim ⟨body, ⟨offset, offset + byteLength (Token.cdata body).source⟩⟩ :: pieces)
  | empty {offset : Nat} {content : Text} {tag : Tag} {tokens : List Token} {pieces : List Piece}
    (hread : Tag.read (offset + 1) content = .ok tag)
    (rest : Content (offset + byteLength (Token.emptyTag content).source) tokens pieces) :
    Content offset (.emptyTag content :: tokens)
      (.element ⟨tag, ⟨offset, offset + byteLength (Token.emptyTag content).source⟩, []⟩ :: pieces)
  | element {offset stop : Nat} {content close : Text} {tag : Tag} {inside tokens : List Token}
    {inner pieces : List Piece} (hread : Tag.read (offset + 1) content = .ok tag)
    (hinside : Content (offset + byteLength (Token.openTag content).source) inside inner)
    (hclose : closingName close = tag.name.text)
    (hstop : stop = offset + byteLength (sources (.openTag content :: (inside ++ [.closeTag close]))))
    (rest : Content stop tokens pieces) :
    Content offset (.openTag content :: (inside ++ .closeTag close :: tokens))
      (.element ⟨tag, ⟨offset, stop⟩, kept false inner⟩ :: pieces)

@[simp] theorem Token.source_run (chars : Text) : (Token.run chars).source = chars := rfl

@[simp] theorem Token.sources_nil : sources [] = [] := rfl

@[simp] theorem Token.sources_cons (token : Token) (tokens : List Token) :
    sources (token :: tokens) = token.source ++ sources tokens :=
  List.flatMap_cons

theorem Content.append {offset : Nat} {front back : List Token} {pieces more : List Piece}
    (h : Content offset front pieces) (hback : Content (offset + byteLength (sources front)) back more) :
    Content offset (front ++ back) (pieces ++ more) := by
  induction h with
  | nil => exact hback
  | silent ht _ ih =>
    refine .silent ht (ih ?_)
    simpa [Nat.add_assoc] using hback
  | run htext _ ih =>
    refine .run htext (ih ?_)
    simpa [Nat.add_assoc] using hback
  | cdata _ ih =>
    refine .cdata (ih ?_)
    simpa [Nat.add_assoc] using hback
  | empty hread _ ih =>
    refine .empty hread (ih ?_)
    simpa [Nat.add_assoc] using hback
  | element hread hinside hclose hstop _ _ ih =>
    rw [List.cons_append, List.append_assoc]
    refine .element hread hinside hclose hstop (ih ?_)
    subst hstop
    simpa [Nat.add_assoc] using hback

/-! ## The builder on content -/

namespace Frame

/-- The frame with one more piece in it. -/
def put (f : Frame) : Piece → Frame
  | .decoded run => f.addText run
  | .verbatim run => f.add (.text run)
  | .element e => f.add (.element e)

/-- Of the pieces put into an element those that count become its children. -/
theorem foldl_put (f : Frame) (pieces : List Piece) :
    pieces.foldl put f = { f with children := (kept f.followsElement pieces).reverse ++ f.children } := by
  -- each piece changes what the next one follows, so the frame is general
  induction pieces generalizing f with
  | nil => rfl
  | cons piece pieces ih =>
    rw [List.foldl_cons, ih]
    cases piece with
    | decoded run =>
      simp only [put, addText, kept]
      split
      · rfl
      · simp [add, followsElement, Child.element?]
    | verbatim run => simp [put, kept, add, followsElement, Child.element?]
    | element e => simp [put, kept, add, followsElement, Child.element?]

end Frame

namespace Progress

/-- Takes in one piece. -/
def put (s : Progress) : Piece → Except Error Progress
  | .decoded run => s.step (.text run)
  | .verbatim run => s.step (.verbatim run)
  | .element e => complete s.frames s.root e

/-- Inside an element, pieces become its children. -/
theorem foldlM_put_inside (tag : Tag) (start : Nat) (outer : List Frame) (root : Option Element)
    (pieces : List Piece) :
    pieces.foldlM put ⟨⟨tag, start, []⟩ :: outer, root⟩ =
      .ok ⟨⟨tag, start, (kept false pieces).reverse⟩ :: outer, root⟩ := by
  have hfold : ∀ f : Frame,
      pieces.foldlM put ⟨f :: outer, root⟩ = .ok ⟨pieces.foldl Frame.put f :: outer, root⟩ := by
    induction pieces with
    | nil => exact fun f => rfl
    | cons piece pieces ih =>
      intro f
      rw [List.foldlM_cons, List.foldl_cons, ← ih]
      cases piece <;> rfl
  rw [hfold, Frame.foldl_put]
  simp [Frame.followsElement]

/-- What is built when the elements are complete outside of all others and the frames are open. -/
def ofComplete (frames : List Frame) : List Element → Except Error Progress
  | [] => .ok ⟨frames, none⟩
  | [e] => .ok ⟨frames, some e⟩
  | _ :: second :: _ => .error (.secondRoot second.span)

theorem foldlM_put_second (pieces : List Piece) (first : Element) :
    pieces.foldlM put ⟨[], some first⟩ = ofComplete [] (first :: pieces.filterMap Piece.element?) := by
  induction pieces with
  | nil => rfl
  | cons piece pieces ih =>
    cases piece with
    | element e => rfl
    | _ => exact ih

/-- Outside of all elements only elements count. -/
theorem foldlM_put_outside (pieces : List Piece) :
    pieces.foldlM put .start = ofComplete [] (pieces.filterMap Piece.element?) := by
  induction pieces with
  | nil => rfl
  | cons piece pieces ih =>
    cases piece with
    | element e => exact foldlM_put_second pieces e
    | _ => exact ih

theorem run_cons {s : Progress} {token : Token} {event : Option Event} {offset : Nat} (tokens : List Token)
    (he : token.event offset = .ok event) :
    s.run offset (token :: tokens) =
      s.takeIn event >>= fun next => next.run (offset + byteLength token.source) tokens := by
  rw [run, he]
  rfl

/-- A start tag, content and the end tag of that name complete an element. -/
theorem run_element {offset stop : Nat} {content close : Text} {tag : Tag} {inside : List Token} {inner : List Piece}
    (hread : Tag.read (offset + 1) content = .ok tag)
    (hinside : ∀ s : Progress, s.run (offset + byteLength (Token.openTag content).source) inside = inner.foldlM put s)
    (hclose : closingName close = tag.name.text)
    (hstop : stop = offset + byteLength (sources (.openTag content :: (inside ++ [.closeTag close]))))
    (s : Progress) (tokens : List Token) :
    s.run offset (.openTag content :: (inside ++ .closeTag close :: tokens)) =
      complete s.frames s.root ⟨tag, ⟨offset, stop⟩, kept false inner⟩ >>= fun next => next.run stop tokens := by
  have hopen : (Token.openTag content).event offset = .ok (some (.opening tag offset)) := by
    simp only [Token.event, hread]
  have hin : Progress.run ⟨⟨tag, offset, []⟩ :: s.frames, s.root⟩ (offset + byteLength (Token.openTag content).source)
      inside = .ok ⟨⟨tag, offset, (kept false inner).reverse⟩ :: s.frames, s.root⟩ := by
    rw [hinside, foldlM_put_inside]
  rw [run_cons _ hopen]
  show Progress.run ⟨⟨tag, offset, []⟩ :: s.frames, s.root⟩ (offset + byteLength (Token.openTag content).source)
    (inside ++ .closeTag close :: tokens) = _
  rw [run_append, hin]
  show Progress.run ⟨⟨tag, offset, (kept false inner).reverse⟩ :: s.frames, s.root⟩ _ (.closeTag close :: tokens) = _
  rw [run_cons _ rfl]
  simp only [takeIn, step, hclose, if_true, Frame.close, List.reverse_reverse, hstop, Token.sources_cons,
    Token.sources_append, Token.sources_nil, Text.byteLength_append, Text.byteLength_nil, Nat.add_assoc, Nat.add_zero]

end Progress

theorem Token.event_of_isSilent {token : Token} (h : token.isSilent = true) (offset : Nat) :
    token.event offset = .ok none := by
  cases token with
  | doctype keyword body =>
    have hbody : ¬ body.all isGap = true := by simpa [isSilent] using h
    simp only [event, if_neg hbody]
  | comment | instruction => rfl
  | run | cdata | closeTag | openTag | emptyTag => cases h

/-- The tokens of content put its pieces, one after the other, into whatever is open. -/
theorem Content.run_eq {offset : Nat} {tokens : List Token} {pieces : List Piece} (h : Content offset tokens pieces)
    (s : Progress) : s.run offset tokens = pieces.foldlM Progress.put s := by
  induction h generalizing s with
  | nil => rfl
  | silent ht _ ih =>
    rw [Progress.run_cons _ (Token.event_of_isSilent ht _)]
    exact ih s
  | @run offset chars text tokens pieces htext _ ih =>
    have hevent : (Token.run chars).event offset = .ok (some (.text ⟨text, ⟨offset, offset + byteLength chars⟩⟩)) := by
      simp only [Token.event, htext, Token.source_run]
    rw [Progress.run_cons _ hevent, List.foldlM_cons]
    exact bind_congr ih
  | cdata _ ih =>
    rw [Progress.run_cons _ rfl, List.foldlM_cons]
    exact bind_congr ih
  | @empty offset content tag tokens pieces hread _ ih =>
    have hevent : (Token.emptyTag content).event offset =
        .ok (some (.empty tag ⟨offset, offset + byteLength (Token.emptyTag content).source⟩)) := by
      simp only [Token.event, hread]
    rw [Progress.run_cons _ hevent, List.foldlM_cons]
    exact bind_congr ih
  | @element offset stop content close tag inside tokens inner pieces hread _ hclose hstop _ ihinside ih =>
    rw [Progress.run_element hread ihinside hclose hstop, List.foldlM_cons]
    exact bind_congr ih

/-! ## Elements still open -/

/-- All tokens so far: content outside of all elements, then a start tag and content behind it, and
so on. The pieces are those outside, the frames the open elements, innermost first. -/
inductive Pending : List Token → List Piece → List Frame → Prop
  | outside {tokens : List Token} {pieces : List Piece} (h : Content 0 tokens pieces) : Pending tokens pieces []
  | inside {before inside : List Token} {content : Text} {tag : Tag} {pieces inner : List Piece} {outer : List Frame}
    (h : Pending before pieces outer) (hread : Tag.read (byteLength (sources before) + 1) content = .ok tag)
    (hinside : Content (byteLength (sources before) + byteLength (Token.openTag content).source) inside inner) :
    Pending (before ++ .openTag content :: inside) pieces
      (⟨tag, byteLength (sources before), (kept false inner).reverse⟩ :: outer)

namespace Pending

variable {done : List Token} {pieces : List Piece} {frames : List Frame}

/-- What is built is told by the elements outside and the open ones. -/
theorem run (h : Pending done pieces frames) :
    Progress.start.run 0 done = Progress.ofComplete frames (pieces.filterMap Piece.element?) := by
  induction h with
  | outside h => rw [h.run_eq, Progress.foldlM_put_outside]
  | @inside before inside content tag pieces inner outer _ hread hinside ih =>
    have hopen : (Token.openTag content).event (byteLength (sources before)) =
        .ok (some (.opening tag (byteLength (sources before)))) := by
      simp only [Token.event, hread]
    have hmore : ∀ s : Progress, s.run (byteLength (sources before)) (.openTag content :: inside) =
        .ok ⟨⟨tag, byteLength (sources before), (kept false inner).reverse⟩ :: s.frames, s.root⟩ := by
      intro s
      rw [Progress.run_cons _ hopen, ← Progress.foldlM_put_inside, ← hinside.run_eq]
      rfl
    rw [Progress.run_append, ih, Nat.zero_add]
    -- a second element outside has failed before this one was opened
    rcases pieces.filterMap Piece.element? with _ | ⟨first, _ | ⟨second, others⟩⟩
    · exact hmore _
    · exact hmore _
    · rfl

/-- More content goes into whatever is open. -/
theorem append {more : List Token} {others : List Piece} (h : Pending done pieces frames)
    (hmore : Content (byteLength (sources done)) more others) :
    ∃ pieces' frames', Pending (done ++ more) pieces' frames' ∧ frames'.map Frame.tag = frames.map Frame.tag := by
  cases h with
  | outside h => exact ⟨_, _, .outside (h.append (by rwa [Nat.zero_add])), rfl⟩
  | @inside before inside content tag pieces inner outer h hread hinside =>
    have hbehind : Content (byteLength (sources before) + byteLength (Token.openTag content).source +
        byteLength (sources inside)) more others := by
      simpa [Nat.add_assoc] using hmore
    rw [List.append_assoc, List.cons_append]
    exact ⟨_, _, .inside h hread (hinside.append hbehind), rfl⟩

/-- The end tag of the innermost element makes it a piece of what is open around it. -/
theorem close {close : Text} {f : Frame} {outer : List Frame} (h : Pending done pieces (f :: outer))
    (hclose : closingName close = f.tag.name.text) :
    ∃ pieces' frames', Pending (done ++ [.closeTag close]) pieces' frames' ∧
      frames'.map Frame.tag = outer.map Frame.tag := by
  cases h with
  | @inside before inside content tag _ inner _ h hread hinside =>
    rw [List.append_assoc, List.cons_append]
    exact h.append (.element hread hinside hclose rfl (.nil _))

/-- One more token that passes the reader's check. -/
theorem step {token : Token} {event : Option Event} {opened : List Text} (h : Pending done pieces frames)
    (he : token.event (byteLength (sources done)) = .ok event)
    (hcheck : event.toList.foldlM checkEnd (frames.map (·.tag.name.text)) = .ok opened) :
    ∃ pieces' frames', Pending (done ++ [token]) pieces' frames' ∧ frames'.map (·.tag.name.text) = opened := by
  have hnames : ∀ {frames frames' : List Frame}, frames'.map Frame.tag = frames.map Frame.tag →
      frames'.map (·.tag.name.text) = frames.map (·.tag.name.text) := by
    intro frames frames' htag
    have hmap := congrArg (List.map fun tag : Tag => tag.name.text) htag
    rwa [List.map_map, List.map_map] at hmap
  have hcontent : ∀ {others : List Piece}, Content (byteLength (sources done)) [token] others →
      frames.map (·.tag.name.text) = opened →
      ∃ pieces' frames', Pending (done ++ [token]) pieces' frames' ∧ frames'.map (·.tag.name.text) = opened := by
    intro others hmore hopened
    obtain ⟨pieces', frames', hp, htag⟩ := h.append hmore
    exact ⟨pieces', frames', hp, (hnames htag).trans hopened⟩
  cases token with
  | run chars =>
    simp only [Token.event] at he
    split at he <;> cases he
    exact hcontent (.run ‹_› (.nil _)) (Except.ok.inj hcheck)
  | cdata body =>
    cases he
    exact hcontent (.cdata (.nil _)) (Except.ok.inj hcheck)
  | comment body =>
    cases he
    exact hcontent (.silent rfl (.nil _)) (Except.ok.inj hcheck)
  | instruction body =>
    cases he
    exact hcontent (.silent rfl (.nil _)) (Except.ok.inj hcheck)
  | doctype keyword body =>
    simp only [Token.event] at he
    split at he <;> cases he
    next hbody =>
      have hsilent : (Token.doctype keyword body).isSilent = true := by simpa [Token.isSilent] using hbody
      exact hcontent (.silent hsilent (.nil _)) (Except.ok.inj hcheck)
  | emptyTag content =>
    simp only [Token.event] at he
    split at he <;> cases he
    exact hcontent (.empty ‹_› (.nil _)) (Except.ok.inj hcheck)
  | openTag content =>
    simp only [Token.event] at he
    split at he <;> cases he
    exact ⟨pieces, _, .inside h ‹_› (.nil _), Except.ok.inj hcheck⟩
  | closeTag content =>
    cases he
    cases frames with
    | nil => cases hcheck
    | cons f outer =>
      simp only [Option.toList_some, List.foldlM_cons, List.foldlM_nil, List.map_cons, checkEnd] at hcheck
      split at hcheck
      · next hname =>
        obtain ⟨pieces', frames', hp, htag⟩ := h.close hname.symm
        exact ⟨pieces', frames', hp, (hnames htag).trans (Except.ok.inj hcheck)⟩
      · cases hcheck

end Pending

/-! ## Documents -/

/-- Tokens that pass the reader's check leave pieces outside and open elements with the names it has kept. -/
theorem exists_pending_append {tokens done : List Token} {pieces : List Piece} {frames : List Frame}
    {opened : List Text} {fault : Option Fault} (h : Pending done pieces frames)
    (hfailure : (Stream.ofTokens (byteLength (sources done)) tokens fault).failure = none)
    (hcheck : (Stream.ofTokens (byteLength (sources done)) tokens fault).events.foldlM checkEnd
      (frames.map (·.tag.name.text)) = .ok opened) :
    ∃ pieces' frames', Pending (done ++ tokens) pieces' frames' ∧ frames'.map (·.tag.name.text) = opened := by
  induction tokens generalizing done pieces frames with
  | nil => exact ⟨pieces, frames, by rwa [List.append_nil], Except.ok.inj hcheck⟩
  | cons token tokens ih =>
    rw [Stream.ofTokens] at hfailure hcheck
    cases he : token.event (byteLength (sources done)) with
    | error e =>
      rw [he] at hfailure
      cases hfailure
    | ok event =>
      rw [he] at hfailure hcheck
      simp only [List.foldlM_append] at hfailure hcheck
      -- the invariant: the names the check has kept are those of the open elements
      obtain ⟨names, hnames, hlater⟩ := bind_eq_ok_iff.1 hcheck
      obtain ⟨pieces', frames', hp, rfl⟩ := h.step he hnames
      have hlength : byteLength (sources (done ++ [token])) = byteLength (sources done) + byteLength token.source := by
        simp
      rw [← hlength] at hfailure hlater
      have hlast := ih hp hfailure hlater
      rwa [List.append_assoc] at hlast

/-- Without a failure there is no fault behind the tokens, and their events are those taken in one by one. -/
theorem Stream.foldlM_ofTokens {tokens : List Token} {offset : Nat} {fault : Option Fault}
    (h : (Stream.ofTokens offset tokens fault).failure = none) :
    fault = none ∧ ∀ s : Progress,
      (Stream.ofTokens offset tokens fault).events.foldlM Progress.step s = s.run offset tokens := by
  induction tokens generalizing offset with
  | nil => exact ⟨Option.map_eq_none_iff.1 h, fun s => rfl⟩
  | cons token tokens ih =>
    rw [Stream.ofTokens] at h ⊢
    cases he : token.event offset with
    | error e =>
      rw [he] at h
      cases h
    | ok event =>
      rw [he] at h
      obtain ⟨hfault, hrun⟩ := ih h
      refine ⟨hfault, fun s => ?_⟩
      rw [Progress.run_cons _ he]
      exact (Progress.foldlM_toList_append s event _).trans (bind_congr hrun)

/-- The reader finds no fault in the text: it is all tokens, these can be decoded, and every end tag
names the innermost open tag. -/
def Readable (t : Text) : Prop :=
  (Stream.read (dropMark t)).failure = none ∧
    ∃ opened, (Stream.read (dropMark t)).events.foldlM checkEnd [] = .ok opened

theorem Readable.exists_pending {t : Text} (h : Readable t) :
    ∃ tokens pieces frames, Token.readAll (dropMark t) = (tokens, none) ∧ Pending tokens pieces frames := by
  obtain ⟨hfailure, opened, hcheck⟩ := h
  rcases hall : Token.readAll (dropMark t) with ⟨tokens, fault⟩
  simp only [Stream.read, hall] at hfailure hcheck
  obtain ⟨rfl, -⟩ := Stream.foldlM_ofTokens hfailure
  obtain ⟨pieces, frames, hp, -⟩ := exists_pending_append (.outside (.nil 0)) hfailure hcheck
  exact ⟨tokens, pieces, frames, rfl, hp⟩

/-- What is read is told by the complete elements and the open ones. -/
theorem Document.parse_of_pending {t : Text} {tokens : List Token} {pieces : List Piece} {frames : List Frame}
    (h : Readable t) (hall : Token.readAll (dropMark t) = (tokens, none)) (hp : Pending tokens pieces frames) :
    Document.parse t = (Progress.ofComplete frames (pieces.filterMap Piece.element?) >>= Progress.finish).map
      fun root => ⟨root, ⟨0, byteLength t⟩⟩ := by
  have hfailure := h.1
  simp only [Stream.read, hall] at hfailure
  have hresume : Progress.start.resume 0 (dropMark t) =
      Progress.ofComplete frames (pieces.filterMap Piece.element?) >>= Progress.finish := by
    simp only [Progress.resume, hall, (Stream.foldlM_ofTokens hfailure).2, hp.run, hfailure]
  rw [Document.parse_eq, hresume]

/-- Whatever is read as a document, the reader found no fault in. -/
theorem readable_of_parse {t : Text} {d : Document} (h : Document.parse t = .ok d) : Readable t := by
  obtain ⟨root, hbuild, -⟩ := bind_eq_ok_iff.1 h
  obtain ⟨last, hfold, hlast⟩ := bind_eq_ok_iff.1 hbuild
  have hfailure : (Stream.read (dropMark t)).failure = none := by
    cases hf : (Stream.read (dropMark t)).failure with
    | none => rfl
    | some e =>
      rw [hf] at hlast
      cases hlast
  exact ⟨hfailure, last.names, Progress.foldlM_checkEnd_of_step hfold⟩

/-- The tokens of a document are content outside of which no element is open and inside of which one is complete. -/
theorem exists_content_of_parse {t : Text} {d : Document} (h : Document.parse t = .ok d) :
    ∃ tokens pieces, Token.readAll (dropMark t) = (tokens, none) ∧ Content 0 tokens pieces ∧
      pieces.filterMap Piece.element? = [d.root] := by
  have hreadable := readable_of_parse h
  obtain ⟨tokens, pieces, frames, hall, hp⟩ := hreadable.exists_pending
  rw [Document.parse_of_pending hreadable hall hp] at h
  cases hp with
  | outside hcontent =>
    refine ⟨tokens, pieces, hall, hcontent, ?_⟩
    rcases hroots : pieces.filterMap Piece.element? with _ | ⟨first, _ | ⟨second, others⟩⟩ <;> rw [hroots] at h
    · cases h
    · cases h
      rfl
    · cases h
  | inside =>
    rcases hroots : pieces.filterMap Piece.element? with _ | ⟨first, _ | ⟨second, others⟩⟩ <;> rw [hroots] at h <;>
      cases h

end LintFixture.Markup
