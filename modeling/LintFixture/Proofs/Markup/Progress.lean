import LintFixture.Markup.Document
import LintFixture.Proofs.Markup.Replay
import LintFixture.Proofs.Traversal

/-!
# Reading on from a state

A document is read token by token, and what the rest of it adds depends only on
the state reached and the offset: `Progress.resume` reads on from there, and takes
in one token at a time (`resume_of_read`). It succeeds when all tokens are taken
in and leave a root (`resume_eq_ok_iff`).
-/

namespace LintFixture.Markup

/-! ## What stands in an open element -/

namespace Frame

/-- The elements met so far, in document order. -/
def elements (f : Frame) : List Element := f.children.reverse.filterMap Child.element?

/-- The text met so far. -/
def innerText (f : Frame) : Text := (f.children.reverse.filterMap Child.run?).flatMap Run.text

@[simp] theorem elements_add_element (f : Frame) (e : Element) :
    (f.add (.element e)).elements = f.elements ++ [e] := by
  simp [elements, add, Child.element?]

@[simp] theorem elements_add_text (f : Frame) (run : Run) : (f.add (.text run)).elements = f.elements := by
  simp [elements, add, Child.element?]

@[simp] theorem innerText_add_text (f : Frame) (run : Run) :
    (f.add (.text run)).innerText = f.innerText ++ run.text := by
  simp [innerText, add, Child.run?]

@[simp] theorem elements_addText (f : Frame) (run : Run) : (f.addText run).elements = f.elements := by
  unfold addText
  split
  · rfl
  · exact elements_add_text f run

@[simp] theorem tag_addText (f : Frame) (run : Run) : (f.addText run).tag = f.tag := by
  unfold addText
  split <;> rfl

@[simp] theorem start_addText (f : Frame) (run : Run) : (f.addText run).start = f.start := by
  unfold addText
  split <;> rfl

end Frame

/-! ## From a state on -/

namespace Progress

/-- Reads the text that begins at `offset`, from a state on, to the root of the document. -/
def resume (s : Progress) (offset : Nat) (t : Text) : Except Error Element :=
  let (tokens, fault) := Token.readAll t
  let stream := Stream.ofTokens offset tokens fault
  stream.events.foldlM step s >>= fun last =>
    match stream.failure with
    | some e => .error e
    | none => last.finish

end Progress

/-- A document is what is read from the start. -/
theorem Document.parse_eq (t : Text) :
    Document.parse t =
      (Progress.start.resume 0 (dropMark t)).map fun root => ⟨root, ⟨0, Text.byteLength t⟩⟩ := by
  have hbuild : (Stream.read (dropMark t)).build = Progress.start.resume 0 (dropMark t) := rfl
  rw [Document.parse, hbuild]
  cases Progress.start.resume 0 (dropMark t) <;> rfl

/-- What a token does to a state; a token that makes no event leaves it. -/
def Progress.takeIn (s : Progress) : Option Event → Except Error Progress
  | none => .ok s
  | some event => s.step event

namespace Progress

variable {s : Progress}

theorem resume_nil (s : Progress) (offset : Nat) : s.resume offset [] = s.finish := by
  have hall : Token.readAll [] = ([], none) := by rw [Token.readAll, dif_pos rfl]
  rw [resume, hall]
  rfl

theorem foldlM_toList_append (s : Progress) (event : Option Event) (later : List Event) :
    (event.toList ++ later).foldlM step s = s.takeIn event >>= later.foldlM step := by
  cases event with
  | none => rfl
  | some event => exact List.foldlM_cons

/-- One token of the text is taken in before the others. -/
theorem resume_of_read {t rest : Text} {token : Token} {event : Option Event} {offset : Nat} (ht : t ≠ [])
    (h : Token.read t = .ok (token, rest)) (he : token.event offset = .ok event) :
    s.resume offset t =
      s.takeIn event >>= fun next => next.resume (offset + Text.byteLength token.source) rest := by
  rw [resume, Token.readAll_of_read ht h]
  simp only [Stream.ofTokens, he, foldlM_toList_append, bind_assoc]
  rfl

/-- The first token is taken in before what follows it. -/
theorem resume_eq_bind {t rest : Text} {token : Token} {offset : Nat} (ht : t ≠ [])
    (h : Token.read t = .ok (token, rest)) :
    s.resume offset t =
      token.event offset >>= fun event => s.takeIn event >>= fun next =>
        next.resume (offset + Text.byteLength token.source) rest := by
  cases he : token.event offset with
  | ok event => exact resume_of_read ht h he
  | error e =>
    rw [resume, Token.readAll_of_read ht h]
    simp only [Stream.ofTokens, he]
    rfl

theorem resume_of_read_error {t : Text} {fault : Fault} {offset : Nat} (ht : t ≠ [])
    (h : Token.read t = .error fault) : s.resume offset t = .error (.malformed offset fault) := by
  have hall : Token.readAll t = ([], some fault) := by
    rw [Token.readAll, dif_neg ht]
    split <;> cases h.symm.trans ‹_›
    rfl
  rw [resume, hall]
  rfl

/-! ## Taking in tokens -/

/-- Takes in the tokens that begin at `offset`. -/
def run (s : Progress) (offset : Nat) : List Token → Except Error Progress
  | [] => .ok s
  | token :: tokens => do
    let event ← token.event offset
    let next ← s.takeIn event
    next.run (offset + Text.byteLength token.source) tokens

theorem run_append (s : Progress) (offset : Nat) (front back : List Token) :
    s.run offset (front ++ back) =
      s.run offset front >>= fun next => next.run (offset + Text.byteLength (Token.sources front)) back := by
  induction front generalizing s offset with
  | nil => rfl
  | cons token front ih =>
    simp only [List.cons_append, run, ih, bind_assoc, Token.sources, List.flatMap_cons,
      Text.byteLength_append, Nat.add_assoc]

theorem run_singleton (s : Progress) (offset : Nat) (token : Token) :
    s.run offset [token] = token.event offset >>= s.takeIn := by
  simp only [run]
  cases token.event offset with
  | error e => rfl
  | ok event => exact bind_pure (s.takeIn event)

/-- The events of tokens without a fault are those that are taken in one by one. -/
theorem foldlM_ofTokens_eq_ok_iff {s : Progress} {offset : Nat} {tokens : List Token} {fault : Option Fault}
    {last : Progress} :
    (Stream.ofTokens offset tokens fault).events.foldlM step s = .ok last ∧
        (Stream.ofTokens offset tokens fault).failure = none ↔
      fault = none ∧ s.run offset tokens = .ok last := by
  induction tokens generalizing s offset with
  | nil => cases fault <;> simp [Stream.ofTokens, run, pure, Except.pure]
  | cons token tokens ih =>
    cases he : token.event offset with
    | error e => simp [Stream.ofTokens, run, he, bind, Except.bind]
    | ok event =>
      have hrun : s.run offset (token :: tokens) =
          s.takeIn event >>= fun next => next.run (offset + Text.byteLength token.source) tokens := by
        rw [run, he]
        rfl
      rw [hrun]
      simp only [Stream.ofTokens, he, foldlM_toList_append]
      cases s.takeIn event with
      | error e => simp [bind, Except.bind]
      | ok next => exact ih

/-- A document is read when all its tokens are taken in and leave a root. -/
theorem resume_eq_ok_iff {s : Progress} {offset : Nat} {t : Text} {root : Element} :
    s.resume offset t = .ok root ↔
      ∃ tokens last, Token.readAll t = (tokens, none) ∧ s.run offset tokens = .ok last ∧ last.finish = .ok root := by
  rcases hall : Token.readAll t with ⟨tokens, fault⟩
  have hresume : s.resume offset t = .ok root ↔ ∃ last,
      ((Stream.ofTokens offset tokens fault).events.foldlM step s = .ok last ∧
        (Stream.ofTokens offset tokens fault).failure = none) ∧ last.finish = .ok root := by
    rw [resume, hall, bind_eq_ok_iff]
    refine exists_congr fun last => ?_
    rw [and_assoc]
    refine and_congr_right fun _ => ?_
    cases (Stream.ofTokens offset tokens fault).failure <;> simp
  simp only [hresume, foldlM_ofTokens_eq_ok_iff]
  constructor
  · rintro ⟨last, ⟨rfl, hrun⟩, hfinish⟩
    exact ⟨tokens, last, rfl, hrun, hfinish⟩
  · rintro ⟨_, last, ⟨⟩, hrun, hfinish⟩
    exact ⟨last, ⟨rfl, hrun⟩, hfinish⟩

/-! ## The parts of an element -/

theorem resume_openingTag {name : Text} {attributes : List (Text × Text)} (offset : Nat) (hn : IsPlainName name)
    (ha : ArePlainAttributes attributes) :
    ∃ tag : Tag, tag.name = Name.ofText name ∧
      tag.attributes.map (fun a => (a.name, a.value)) = attributes.map (fun a => (Name.ofText a.1, a.2)) ∧
      ∀ (s : Progress) (rest : Text), s.resume offset (Sheet.openingTag name attributes ++ rest) =
        resume ⟨⟨tag, offset, []⟩ :: s.frames, s.root⟩
          (offset + Text.byteLength (Sheet.openingTag name attributes)) rest := by
  obtain ⟨tag, htag, hname, hattributes⟩ := exists_tagRead (offset + 1) hn ha
  refine ⟨tag, hname, hattributes, fun s rest => ?_⟩
  have hread := Token.read_openingTag rest hn ha.1
  have hevent : (Token.openTag (name ++ Sheet.attributesText attributes)).event offset =
      .ok (some (.opening tag offset)) := by
    simp only [Token.event, htag]
  rw [resume_of_read (by simp [Sheet.openingTag]) hread hevent]
  simp only [takeIn, step, Token.source, Sheet.openingTag_eq]
  rfl

/-- A run of written text is taken in before what follows it, be that markup or the end. -/
theorem resume_run {s : Progress} {run text : Text} (offset : Nat) (rest : Text) (hne : run ≠ []) (hrun : '<' ∉ run)
    (htext : unescape run = .ok text) (hrest : ∀ c, rest.head? = some c → c = '<') :
    s.resume offset (run ++ rest) =
      s.takeIn (some (.text ⟨text, ⟨offset, offset + Text.byteLength run⟩⟩)) >>= fun next =>
        next.resume (offset + Text.byteLength run) rest := by
  have hevent : (Token.run run).event offset =
      .ok (some (.text ⟨text, ⟨offset, offset + Text.byteLength run⟩⟩)) := by
    simp only [Token.event, htext, Token.source]
  exact resume_of_read (List.append_ne_nil_of_left_ne_nil hne rest) (Token.read_run hne hrun hrest) hevent

/-- The end tag of the innermost element completes it. -/
theorem resume_closingTag {name : Text} {frame : Frame} (outer : List Frame) (root : Option Element)
    (offset : Nat) (rest : Text) (hn : IsPlainName name) (hf : frame.tag.name = Name.ofText name) :
    resume ⟨frame :: outer, root⟩ offset (Sheet.closingTag name ++ rest) =
      complete outer root (frame.close (offset + Text.byteLength (Sheet.closingTag name))) >>= fun next =>
        next.resume (offset + Text.byteLength (Sheet.closingTag name)) rest := by
  have hevent : (Token.closeTag name).event offset =
      .ok (some (.closing name ⟨offset, offset + Text.byteLength (Sheet.closingTag name)⟩)) := by
    rw [Token.event, Token.closingName_plain hn]
    rfl
  have hname : frame.tag.name.text = name := by rw [hf, Name.text_ofText]
  rw [resume_of_read (by simp [Sheet.closingTag]) (Token.read_closingTag rest hn) hevent]
  simp only [takeIn, step, hname, if_true]
  rfl

/-- A section is put as it stands into the innermost element. -/
theorem resume_cdataSection {t : Text} {frame : Frame} {outer : List Frame} {root : Option Element}
    (offset : Nat) (rest : Text) (h : ¬ sectionEnd <:+: t) :
    resume ⟨frame :: outer, root⟩ offset (Sheet.cdataSection t ++ rest) =
      resume ⟨frame.add (.text ⟨t, ⟨offset, offset + Text.byteLength (Sheet.cdataSection t)⟩⟩) :: outer, root⟩
        (offset + Text.byteLength (Sheet.cdataSection t)) rest :=
  resume_of_read (by simp [Sheet.cdataSection]) (Token.read_cdataSection rest h) rfl

end Progress

end LintFixture.Markup
