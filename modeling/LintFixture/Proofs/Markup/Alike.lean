import LintFixture.Proofs.Agreement
import LintFixture.Proofs.Markup.Progress
import LintFixture.Proofs.Markup.Shift

/-!
# Documents that are alike

Two elements are alike when they have the same names, attributes and elements, with
spans up to so many bytes apart, and the same text except inside elements of the
names that are given as loose (`Element.Alike`). States of reading that are alike
stay so when they read on through one text: they end with roots that are alike, or
with one error but for its spans (`Progress.Alike.resume`).
-/

namespace LintFixture.Markup

open Text (byteLength)

variable {loose : Text → Prop} {k n n' : Nat}

/-! ## Places up to some bytes apart -/

/-- `b` is `a` or up to `k` more. -/
def Near (k a b : Nat) : Prop := a ≤ b ∧ b ≤ a + k

theorem Near.refl (k a : Nat) : Near k a a := ⟨Nat.le_refl a, Nat.le_add_right a k⟩

theorem Near.add_right (h : Near k n n') (m : Nat) : Near k (n + m) (n' + m) := by
  unfold Near at h ⊢
  omega

/-- Both ends lie up to `k` bytes further on. -/
structure Span.Moved (k : Nat) (s s' : Span) : Prop where
  start : Near k s.start s'.start
  stop : Near k s.stop s'.stop

theorem Span.Moved.refl (k : Nat) (s : Span) : s.Moved k s := ⟨.refl k _, .refl k _⟩

theorem Span.moved_shift (h : Near k n n') (s : Span) : (s.shift n).Moved k (s.shift n') :=
  ⟨h.add_right s.start, h.add_right s.stop⟩

/-- The same name and attributes, with the name up to `k` bytes further on. -/
structure Tag.Moved (k : Nat) (tag tag' : Tag) : Prop where
  name : tag'.name = tag.name
  nameSpan : tag.nameSpan.Moved k tag'.nameSpan
  attribute? : ∀ name, tag'.attribute? name = tag.attribute? name

theorem Tag.Moved.refl (k : Nat) (tag : Tag) : tag.Moved k tag := ⟨rfl, .refl k _, fun _ => rfl⟩

theorem Tag.attribute?_shift (n : Nat) (tag : Tag) (name : Text) :
    (tag.shift n).attribute? name = tag.attribute? name := by
  simp only [attribute?, shift, List.find?_map, Option.map_map]
  rfl

theorem Tag.moved_shift (h : Near k n n') (tag : Tag) : (tag.shift n).Moved k (tag.shift n') where
  name := rfl
  nameSpan := Span.moved_shift h _
  attribute? name := by rw [attribute?_shift, attribute?_shift]

/-- The same error, with its span up to `k` bytes further on. -/
inductive Error.Moved (k : Nat) : Error → Error → Prop
  | malformed {p p' : Nat} (h : Near k p p') (fault : Fault) : Moved k (.malformed p fault) (.malformed p' fault)
  | unclosed (name : Text) {s s' : Span} (h : s.Moved k s') : Moved k (.unclosed name s) (.unclosed name s')
  | secondRoot {s s' : Span} (h : s.Moved k s') : Moved k (.secondRoot s) (.secondRoot s')
  | noRoot : Moved k .noRoot .noRoot

theorem Error.Moved.refl (k : Nat) (e : Error) : e.Moved k e := by
  cases e with
  | malformed position fault => exact .malformed (.refl k position) fault
  | unclosed name span => exact .unclosed name (.refl k span)
  | secondRoot span => exact .secondRoot (.refl k span)
  | noRoot => exact .noRoot

theorem Error.Moved.near {p p' : Nat} {fault fault' : Fault}
    (h : (Error.malformed p fault).Moved k (.malformed p' fault')) : Near k p p' := by
  cases h
  assumption

/-! ## Elements -/

/-- The same element with its places up to `k` bytes further on, and so all elements in it. Where
the name is loose the text is free. -/
inductive Element.Alike (loose : Text → Prop) (k : Nat) : Element → Element → Prop
  | intro {e e' : Element} (tag : e.tag.Moved k e'.tag) (span : e.span.Moved k e'.span)
    (elements : List.Forall₂ (Alike loose k) e.elements e'.elements)
    (text : ¬ loose e.name → e'.innerText = e.innerText) : Alike loose k e e'

namespace Element

theorem sizeOf_lt_of_mem_elements {e inner : Element} (h : inner ∈ e.elements) : sizeOf inner < sizeOf e := by
  obtain ⟨tag, span, children⟩ := e
  obtain ⟨child, hmem, hchild⟩ := List.mem_filterMap.1 h
  cases child with
  | text run => cases hchild
  | element own =>
    cases hchild
    have hsize := List.sizeOf_lt_of_mem hmem
    simp only [Child.element.sizeOf_spec, Element.mk.sizeOf_spec] at hsize ⊢
    omega

namespace Alike

theorem refl (loose : Text → Prop) (k : Nat) (e : Element) : e.Alike loose k e :=
  .intro (.refl k _) (.refl k _) (List.forall₂_same.2 fun inner _ => refl loose k inner) fun _ => rfl
termination_by sizeOf e
decreasing_by exact sizeOf_lt_of_mem_elements ‹_›

variable {e e' : Element}

theorem tag (h : e.Alike loose k e') : e.tag.Moved k e'.tag := by
  cases h
  assumption

theorem span (h : e.Alike loose k e') : e.span.Moved k e'.span := by
  cases h
  assumption

theorem elements (h : e.Alike loose k e') : List.Forall₂ (Alike loose k) e.elements e'.elements := by
  cases h
  assumption

theorem innerText (h : e.Alike loose k e') (hname : ¬ loose e.name) : e'.innerText = e.innerText := by
  cases h with
  | intro _ _ _ text => exact text hname

theorem name (h : e.Alike loose k e') : e'.name = e.name := by
  rw [Element.name, h.tag.name, Element.name]

theorem attribute? (h : e.Alike loose k e') (name : Text) : e'.attribute? name = e.attribute? name :=
  h.tag.attribute? name

/-- The elements of one name are alike, one by one. -/
theorem childrenNamed (h : e.Alike loose k e') (name : Text) :
    List.Forall₂ (fun c c' => c.Alike loose k c' ∧ c.name = name) (e.childrenNamed name) (e'.childrenNamed name) := by
  have hrel := forall₂_filter (p := fun child => child.name == name) (q := fun child => child.name == name)
    (fun _ _ hxy => by rw [hxy.name]) h.elements
  simp only [beq_iff_eq] at hrel
  exact hrel

/-- The first elements of a name are alike, if there are any. -/
theorem child? (h : e.Alike loose k e') (name : Text) :
    Option.Rel (fun c c' => c.Alike loose k c' ∧ c.name = name) (e.child? name) (e'.child? name) := by
  have hrel := rel_find? (p := fun child => child.name == name) (q := fun child => child.name == name)
    (fun _ _ hxy => by rw [hxy.name]) h.elements
  simp only [beq_iff_eq] at hrel
  exact hrel

end Alike

end Element

/-! ## Open elements -/

namespace Frame

@[simp] theorem followsElement_add (f : Frame) (child : Child Element) :
    (f.add child).followsElement = child.element?.isSome := rfl

@[simp] theorem innerText_add_element (f : Frame) (e : Element) : (f.add (.element e)).innerText = f.innerText := by
  simp [innerText, add, Child.run?]

/-- Alike as elements are. Where the text counts, it goes on in the same way. -/
structure Alike (loose : Text → Prop) (k : Nat) (f f' : Frame) : Prop where
  tag : f.tag.Moved k f'.tag
  start : Near k f.start f'.start
  elements : List.Forall₂ (Element.Alike loose k) f.elements f'.elements
  text : ¬ loose f.tag.name.localPart → f'.innerText = f.innerText ∧ f'.followsElement = f.followsElement

namespace Alike

theorem refl (loose : Text → Prop) (k : Nat) (f : Frame) : f.Alike loose k f where
  tag := .refl k _
  start := .refl k _
  elements := List.forall₂_same.2 fun e _ => .refl loose k e
  text _ := ⟨rfl, rfl⟩

variable {f f' : Frame}

theorem opened {tag tag' : Tag} (ht : tag.Moved k tag') (hn : Near k n n') :
    Alike loose k ⟨tag, n, []⟩ ⟨tag', n', []⟩ :=
  ⟨ht, hn, .nil, fun _ => ⟨rfl, rfl⟩⟩

theorem add_text (h : f.Alike loose k f') {run run' : Run} (hrun : run'.text = run.text) :
    (f.add (.text run)).Alike loose k (f'.add (.text run')) where
  tag := h.tag
  start := h.start
  elements := by simpa using h.elements
  text hname := by simp [hrun, (h.text hname).1, Child.element?]

theorem addText (h : f.Alike loose k f') {run run' : Run} (hrun : run'.text = run.text) :
    (f.addText run).Alike loose k (f'.addText run') where
  tag := by simpa using h.tag
  start := by simpa using h.start
  elements := by simpa using h.elements
  text hname := by
    rw [tag_addText] at hname
    -- both frames follow an element or neither, so the run counts in both or in neither
    rw [Frame.addText, Frame.addText, hrun, (h.text hname).2]
    split
    · exact h.text hname
    · exact (h.add_text hrun).text hname

theorem add_element (h : f.Alike loose k f') {e e' : Element} (he : e.Alike loose k e') :
    (f.add (.element e)).Alike loose k (f'.add (.element e')) where
  tag := h.tag
  start := h.start
  elements := by
    rw [elements_add_element, elements_add_element]
    exact List.rel_append h.elements (.cons he .nil)
  text hname := by simp [(h.text hname).1, Child.element?]

theorem close (h : f.Alike loose k f') (hn : Near k n n') : (f.close n).Alike loose k (f'.close n') :=
  .intro h.tag ⟨h.start, hn⟩ h.elements fun hname => (h.text hname).1

end Alike

end Frame

/-! ## States of reading -/

namespace Progress

/-- The same elements are open, and the root is complete in both or in neither. -/
structure Alike (loose : Text → Prop) (k : Nat) (s s' : Progress) : Prop where
  frames : List.Forall₂ (Frame.Alike loose k) s.frames s'.frames
  root : Option.Rel (Element.Alike loose k) s.root s'.root

variable {s s' : Progress}

theorem Alike.refl (loose : Text → Prop) (k : Nat) (s : Progress) : s.Alike loose k s where
  frames := List.forall₂_same.2 fun f _ => .refl loose k f
  root := by
    cases s.root with
    | none => exact .none
    | some e => exact .some (.refl loose k e)

theorem agree_complete {frames frames' : List Frame} {root root' : Option Element} {e e' : Element}
    (hframes : List.Forall₂ (Frame.Alike loose k) frames frames')
    (hroot : Option.Rel (Element.Alike loose k) root root') (he : e.Alike loose k e') :
    Agree (Error.Moved k) (Alike loose k) (complete frames root e) (complete frames' root' e') := by
  cases hframes with
  | cons hparent houter => exact .ok ⟨.cons (hparent.add_element he) houter, hroot⟩
  | nil =>
    cases hroot with
    | none => exact .ok ⟨.nil, .some he⟩
    | some => exact .error (.secondRoot he.span)

theorem Alike.finish (h : s.Alike loose k s') :
    Agree (Error.Moved k) (Element.Alike loose k) s.finish s'.finish := by
  obtain ⟨frames, root⟩ := s
  obtain ⟨frames', root'⟩ := s'
  cases h.frames with
  | cons hf _ =>
    simp only [Progress.finish, hf.tag.name]
    exact .error (.unclosed _ hf.tag.nameSpan)
  | nil =>
    cases h.root with
    | none => exact .error .noRoot
    | some he => exact .ok he

/-- What a token means is taken in alike at places that are near. -/
theorem Alike.takeIn (h : s.Alike loose k s') (hn : Near k n n') (first : Option Event) :
    Agree (Error.Moved k) (Alike loose k) (s.takeIn (first.map (Event.shift n)))
      (s'.takeIn (first.map (Event.shift n'))) := by
  obtain ⟨frames, root⟩ := s
  obtain ⟨frames', root'⟩ := s'
  rcases first with _ | event
  · exact .ok h
  cases event with
  | opening tag start =>
    exact .ok ⟨.cons (.opened (Tag.moved_shift hn tag) (hn.add_right start)) h.frames, h.root⟩
  | empty tag span =>
    exact agree_complete h.frames h.root
      (.intro (Tag.moved_shift hn tag) (Span.moved_shift hn span) .nil fun _ => rfl)
  | closing name span =>
    cases h.frames with
    | nil => exact .error (.malformed (Span.moved_shift hn span).start _)
    | cons hf houter =>
      simp only [Option.map_some, Event.shift, Progress.takeIn, step, hf.tag.name]
      split
      · exact agree_complete houter h.root (hf.close (Span.moved_shift hn span).stop)
      · exact .error (.malformed (Span.moved_shift hn span).start _)
  | text run =>
    cases h.frames with
    | nil => exact .ok h
    | cons hf houter => exact .ok ⟨.cons (hf.addText rfl) houter, h.root⟩
  | verbatim run =>
    cases h.frames with
    | nil => exact .ok h
    | cons hf houter => exact .ok ⟨.cons (hf.add_text rfl) houter, h.root⟩

end Progress

/-- A token that means nothing has one fault, wherever it stands. -/
theorem Token.exists_event_eq_error {token : Token} {e : Error} (h : token.event 0 = .error e) :
    ∃ p fault, ∀ offset, token.event offset = .error (.malformed (offset + p) fault) := by
  cases token with
  | run chars =>
    cases hu : unescape chars with
    | ok text => simp [Token.event, hu] at h
    | error fault => exact ⟨0, .text fault, fun offset => by simp only [Token.event, hu, Nat.add_zero]⟩
  | doctype keyword body =>
    by_cases hbody : body.all isGap = true
    · refine ⟨byteLength (Token.doctype keyword body).source - 1, .namelessDoctype, fun offset => ?_⟩
      have hpos : 1 ≤ byteLength (Token.doctype keyword body).source := Nat.le_add_right_of_le (by decide)
      simp only [Token.event, if_pos hbody, Nat.add_sub_assoc hpos]
    · simp [Token.event, hbody] at h
  | openTag content | emptyTag content =>
    cases ht : Tag.read 1 content with
    | ok tag => simp [Token.event, ht] at h
    | error fault =>
      refine ⟨0, fault, fun offset => ?_⟩
      have hread : Tag.read (offset + 1) content = .error fault := by
        rw [Tag.read_add, ht]
        rfl
      simp only [Token.event, hread, Nat.add_zero]
  | cdata | comment | instruction | closeTag => cases h

/-- At places that are near, a token means the same or has the same fault. -/
theorem Token.agree_event (hn : Near k n n') (token : Token) :
    Agree (Error.Moved k) (fun event event' => ∃ first : Option Event,
      event = first.map (Event.shift n) ∧ event' = first.map (Event.shift n')) (token.event n) (token.event n') := by
  cases he : token.event 0 with
  | ok first =>
    rw [event_eq_ok_iff.2 ⟨first, he, rfl⟩, event_eq_ok_iff.2 ⟨first, he, rfl⟩]
    exact .ok ⟨first, rfl, rfl⟩
  | error e =>
    obtain ⟨p, fault, hfault⟩ := exists_event_eq_error he
    rw [hfault, hfault]
    exact .error (.malformed (hn.add_right p) fault)

namespace Progress

variable {s s' : Progress}

/-- Alike states stay so when they read on, up to the root. -/
theorem Alike.resume (h : s.Alike loose k s') (hn : Near k n n') (t : Text) :
    Agree (Error.Moved k) (Element.Alike loose k) (s.resume n t) (s'.resume n' t) := by
  fun_induction Token.readAll t generalizing s s' n n' with
  | case1 =>
    rw [resume_nil, resume_nil]
    exact h.finish
  | case2 t ht fault hread =>
    rw [resume_of_read_error ht hread, resume_of_read_error ht hread]
    exact .error (.malformed hn fault)
  | case3 t ht token rest hread _ _ _ ih =>
    rw [resume_eq_bind ht hread, resume_eq_bind ht hread]
    refine (token.agree_event hn).bind ?_
    rintro _ _ ⟨first, rfl, rfl⟩
    exact (h.takeIn hn first).bind fun next next' hnext => ih hnext (hn.add_right _)

end Progress

end LintFixture.Markup
