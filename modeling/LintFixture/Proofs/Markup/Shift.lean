import LintFixture.Markup.Document
import LintFixture.Proofs.Traversal

/-!
# Reading at an offset

A token means the same wherever it stands: at an offset it means what it means at
the start of a document, with every span moved by the offset
(`Token.event_eq_ok_iff`). What is moved twice is moved by the sum.
-/

namespace LintFixture.Markup

/-! ## Moving spans -/

/-- The span `n` bytes further on. -/
def Span.shift (n : Nat) (s : Span) : Span := ⟨n + s.start, n + s.stop⟩

@[simp] theorem Span.start_shift (n : Nat) (s : Span) : (s.shift n).start = n + s.start := rfl

@[simp] theorem Span.shift_shift (m n : Nat) (s : Span) : (s.shift m).shift n = s.shift (n + m) := by
  simp [shift, Nat.add_assoc]

def Run.shift (n : Nat) (run : Run) : Run := { run with span := run.span.shift n }

@[simp] theorem Run.shift_shift (m n : Nat) (run : Run) : (run.shift m).shift n = run.shift (n + m) := by
  simp [shift]

def Attribute.shift (n : Nat) (a : Attribute) : Attribute :=
  { a with nameSpan := a.nameSpan.shift n, valueSpan := a.valueSpan.shift n }

@[simp] theorem Attribute.shift_shift (m n : Nat) (a : Attribute) : (a.shift m).shift n = a.shift (n + m) := by
  simp [shift]

def Tag.shift (n : Nat) (tag : Tag) : Tag :=
  { tag with nameSpan := tag.nameSpan.shift n, attributes := tag.attributes.map (Attribute.shift n) }

@[simp] theorem Tag.name_shift (n : Nat) (tag : Tag) : (tag.shift n).name = tag.name := rfl

@[simp] theorem Tag.shift_shift (m n : Nat) (tag : Tag) : (tag.shift m).shift n = tag.shift (n + m) := by
  simp [shift]

def Event.shift (n : Nat) : Event → Event
  | .opening tag start => .opening (tag.shift n) (n + start)
  | .closing name span => .closing name (span.shift n)
  | .empty tag span => .empty (tag.shift n) (span.shift n)
  | .text run => .text (run.shift n)
  | .verbatim run => .verbatim (run.shift n)

mutual

/-- The element with all its spans moved, those inside it too. -/
def Element.shift (n : Nat) : Element → Element
  | ⟨tag, span, children⟩ => ⟨tag.shift n, span.shift n, Child.shiftAll n children⟩

def Child.shift (n : Nat) : Child Element → Child Element
  | .text run => .text (run.shift n)
  | .element e => .element (e.shift n)

def Child.shiftAll (n : Nat) : List (Child Element) → List (Child Element)
  | [] => []
  | child :: children => child.shift n :: Child.shiftAll n children

end

theorem Child.shiftAll_eq_map (n : Nat) (children : List (Child Element)) :
    Child.shiftAll n children = children.map (Child.shift n) := by
  induction children with
  | nil => rfl
  | cons child children ih => rw [shiftAll, ih, List.map_cons]

@[simp] theorem Element.span_shift (n : Nat) (e : Element) : (e.shift n).span = e.span.shift n := by
  cases e
  rfl

@[simp] theorem Element.tag_shift (n : Nat) (e : Element) : (e.shift n).tag = e.tag.shift n := by
  cases e
  rfl

mutual

theorem Element.shift_shift (m n : Nat) (e : Element) : (e.shift m).shift n = e.shift (n + m) := by
  match e with
  | ⟨tag, span, children⟩ =>
    simp only [Element.shift, Tag.shift_shift, Span.shift_shift, Child.shiftAll_shiftAll m n children]

theorem Child.shift_shift (m n : Nat) (child : Child Element) : (child.shift m).shift n = child.shift (n + m) := by
  match child with
  | .text run => simp only [Child.shift, Run.shift_shift]
  | .element e => simp only [Child.shift, Element.shift_shift m n e]

theorem Child.shiftAll_shiftAll (m n : Nat) (children : List (Child Element)) :
    Child.shiftAll n (Child.shiftAll m children) = Child.shiftAll (n + m) children := by
  match children with
  | [] => rfl
  | child :: children =>
    simp only [Child.shiftAll, Child.shift_shift m n child, Child.shiftAll_shiftAll m n children]

end

/-! ## Open elements -/

namespace Frame

def shift (n : Nat) (f : Frame) : Frame := ⟨f.tag.shift n, n + f.start, f.children.map (Child.shift n)⟩

theorem shift_shift (m n : Nat) (f : Frame) : (f.shift m).shift n = f.shift (n + m) := by
  simp [shift, Child.shift_shift, Function.comp_def, Nat.add_assoc]

theorem close_shift (n stop : Nat) (f : Frame) : (f.shift n).close (n + stop) = (f.close stop).shift n := by
  simp [close, shift, Element.shift, Span.shift, Child.shiftAll_eq_map]

theorem add_shift (n : Nat) (f : Frame) (child : Child Element) :
    (f.shift n).add (child.shift n) = (f.add child).shift n := rfl

/-- Blank text is layout after an element, wherever the two stand. -/
theorem addText_shift (n : Nat) (f : Frame) (run : Run) :
    (f.shift n).addText (run.shift n) = (f.addText run).shift n := by
  have hfollows : (f.shift n).followsElement = f.followsElement := by
    obtain ⟨tag, start, _ | ⟨child, children⟩⟩ := f
    · rfl
    · cases child <;> rfl
  have htext : (run.shift n).text = run.text := rfl
  rw [addText, addText, hfollows, htext]
  split <;> rfl

end Frame

/-! ## Reading moved -/

theorem RawAttribute.resolve_add (n base : Nat) (a : RawAttribute) :
    a.resolve (n + base) = (a.resolve base).map (Attribute.shift n) := by
  simp only [resolve]
  cases unescape a.raw with
  | error e => rfl
  | ok value => simp [bind, Except.bind, pure, Except.pure, Except.map, Attribute.shift, Span.shift, Nat.add_assoc]

theorem readAttributes_add (n base : Nat) (seen : List (Text × Nat)) (here : Place) :
    readAttributes (n + base) seen here = (readAttributes base seen here).map (List.map (Attribute.shift n)) := by
  fun_induction readAttributes base seen here with
  | case1 seen here e h =>
    rw [readAttributes]
    split <;> cases h.symm.trans ‹_›
    rfl
  | case2 seen here h =>
    rw [readAttributes]
    split <;> cases h.symm.trans ‹_›
    rfl
  | case3 seen here raw after h e hvalue =>
    rw [readAttributes]
    split <;> cases h.symm.trans ‹_›
    rw [RawAttribute.resolve_add, hvalue]
    rfl
  | case4 seen here raw after h first hvalue ih =>
    rw [readAttributes]
    split <;> cases h.symm.trans ‹_›
    rw [RawAttribute.resolve_add, hvalue]
    simp only [Except.map, ih]
    cases readAttributes base ((raw.key, raw.keyOffset) :: seen) after <;> rfl

theorem Tag.read_add (n base : Nat) (content : Text) :
    Tag.read (n + base) content = (Tag.read base content).map (Tag.shift n) := by
  simp only [read, readAttributes_add n base]
  cases readAttributes base [] ((⟨0, content⟩ : Place).skip continuesName) with
  | error e => rfl
  | ok attributes => simp [bind, Except.bind, pure, Except.pure, Except.map, Tag.shift, Span.shift, Nat.add_assoc]

/-- A token means what it means at the start, moved to where it stands. -/
theorem Token.event_eq_ok_iff {token : Token} {offset : Nat} {event : Option Event} :
    token.event offset = .ok event ↔
      ∃ first, token.event 0 = .ok first ∧ event = first.map (Event.shift offset) := by
  have hspan : ∀ source, (⟨offset, offset + Text.byteLength source⟩ : Span) =
      (⟨0, 0 + Text.byteLength source⟩ : Span).shift offset := fun source => by simp [Span.shift]
  have hread : ∀ content, Tag.read (offset + 1) content = (Tag.read (0 + 1) content).map (Tag.shift offset) :=
    fun content => Tag.read_add offset 1 content
  cases token with
  | run chars =>
    simp only [Token.event, hspan]
    cases unescape chars <;> simp [Event.shift, Run.shift, eq_comm]
  | cdata body => simp [Token.event, hspan, Event.shift, Run.shift, eq_comm]
  | comment body => simp [Token.event, eq_comm]
  | instruction body => simp [Token.event, eq_comm]
  | doctype keyword body =>
    simp only [Token.event]
    split <;> simp [eq_comm]
  | closeTag content => simp [Token.event, hspan, Event.shift, eq_comm]
  | openTag content =>
    simp only [Token.event, hread]
    cases Tag.read (0 + 1) content <;> simp [Except.map, Event.shift, eq_comm]
  | emptyTag content =>
    simp only [Token.event, hread, hspan]
    cases Tag.read (0 + 1) content <;> simp [Except.map, Event.shift, eq_comm]

end LintFixture.Markup
