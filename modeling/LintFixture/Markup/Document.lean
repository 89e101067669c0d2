import LintFixture.Markup.Event
import LintFixture.Text.Blank

/-!
# Documents

Building the tree from events: start tags open frames, end tags close the
innermost one. Text between elements that is all blank is layout, not content,
and is left out; text before the first element is kept, also when blank.
-/

namespace LintFixture.Markup

/-- An element whose end tag has not been met. Its children stand newest first. -/
structure Frame where
  tag : Tag
  start : Nat
  children : List (Child Element)

namespace Frame

/-- The element that ends at `stop`. -/
def close (f : Frame) (stop : Nat) : Element where
  tag := f.tag
  span := ⟨f.start, stop⟩
  children := f.children.reverse

def add (f : Frame) (child : Child Element) : Frame := { f with children := child :: f.children }

/-- Whether the newest child is an element. -/
def followsElement (f : Frame) : Bool := (f.children.head?.bind Child.element?).isSome

/-- The frame after decoded text, which counts unless it is blank and follows an element. -/
def addText (f : Frame) (run : Run) : Frame :=
  if f.followsElement && Text.allBlank run.text then f else f.add (.text run)

end Frame

/-- The open elements, innermost first, and the element completed outside of all others. -/
structure Progress where
  frames : List Frame
  root : Option Element

namespace Progress

def start : Progress := ⟨[], none⟩

/-- Hands a complete element to the innermost open one, or makes it the root. -/
def complete (frames : List Frame) (root : Option Element) (e : Element) : Except Error Progress :=
  match frames with
  | parent :: outer => .ok ⟨parent.add (.element e) :: outer, root⟩
  | [] =>
    match root with
    | none => .ok ⟨[], some e⟩
    | some _ => .error (.secondRoot e.span)

/-- Takes in one event. -/
def step (s : Progress) : Event → Except Error Progress
  | .opening tag start => .ok { s with frames := ⟨tag, start, []⟩ :: s.frames }
  | .empty tag span => complete s.frames s.root ⟨tag, span, []⟩
  | .closing name span =>
    match s.frames with
    | [] => .error (.malformed span.start (.unmatchedClose name))
    | frame :: outer =>
      if frame.tag.name.text = name then complete outer s.root (frame.close span.stop)
      else .error (.malformed span.start (.mismatchedClose frame.tag.name.text name))
  | .text run =>
    match s.frames with
    | [] => .ok s
    | frame :: outer => .ok { s with frames := frame.addText run :: outer }
  | .verbatim run =>
    match s.frames with
    | [] => .ok s
    | frame :: outer => .ok { s with frames := frame.add (.text run) :: outer }

/-- The root, once the document is over. -/
def finish (s : Progress) : Except Error Element :=
  match s.frames, s.root with
  | frame :: _, _ => .error (.unclosed frame.tag.name.localPart frame.tag.nameSpan)
  | [], none => .error .noRoot
  | [], some root => .ok root

end Progress

/-- The single root of a stream of events. -/
def Stream.build (s : Stream) : Except Error Element := do
  let last ← s.events.foldlM Progress.step .start
  match s.failure with
  | some e => .error e
  | none => last.finish

/-- A document: its root element and the span of the whole text. -/
structure Document where
  root : Element
  span : Span

/-- The text without a byte order mark at its start. -/
def dropMark : Text → Text
  | '\uFEFF' :: rest => rest
  | t => t

theorem dropMark_eq_self {t : Text} (h : t.head? ≠ some '\uFEFF') : dropMark t = t := by
  unfold dropMark
  split
  · exact absurd rfl h
  · rfl

/-- Reads a document. A byte order mark takes no room in the spans of its parts. -/
def Document.parse (t : Text) : Except Error Document := do
  let root ← (Stream.read (dropMark t)).build
  return ⟨root, ⟨0, Text.byteLength t⟩⟩

end LintFixture.Markup
