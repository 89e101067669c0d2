import LintFixture.Markup.Tag

/-!
# Elements

The tree a document stands for. The children of an element are its runs of text
and its elements, in document order; runs next to each other are kept apart, and
the views that join them are functions on the children.
-/

namespace LintFixture.Markup

/-- Decoded text and the span it was read from. -/
structure Run where
  text : Text
  span : Span
  deriving DecidableEq, Repr

/-- A run of text, or an element of the given kind. -/
inductive Child (α : Type) where
  | text (run : Run)
  | element (e : α)

namespace Child

variable {α : Type}

def run? : Child α → Option Run
  | .text run => some run
  | .element _ => none

def element? : Child α → Option α
  | .text _ => none
  | .element e => some e

end Child

/-- An element, from its start tag through its end tag. -/
structure Element where
  tag : Tag
  span : Span
  children : List (Child Element)

/-- What kind of content an element has. -/
inductive Layout where
  | empty
  /-- Only text, joined to one run. -/
  | text (run : Run)
  | elements
  | mixed
  deriving DecidableEq, Repr

namespace Element

/-- The local name. -/
def name (e : Element) : Text := e.tag.name.localPart

/-- The value of the first attribute with that local name. -/
def attribute? (e : Element) (name : Text) : Option Text := e.tag.attribute? name

/-- The runs of text directly inside. -/
def runs (e : Element) : List Run := e.children.filterMap Child.run?

/-- The elements directly inside. -/
def elements (e : Element) : List Element := e.children.filterMap Child.element?

/-- All text directly inside, joined. -/
def innerText (e : Element) : Text := e.runs.flatMap Run.text

/-- The elements directly inside that have a local name. -/
def childrenNamed (e : Element) (name : Text) : List Element :=
  e.elements.filter fun child => child.name == name

/-- The first element directly inside that has a local name. -/
def child? (e : Element) (name : Text) : Option Element :=
  e.elements.find? fun child => child.name == name

theorem child?_eq (e : Element) (name : Text) : e.child? name = (e.childrenNamed name).head? :=
  List.head?_filter.symm

/-- The run from the first of several to the last. -/
def joinRuns (first : Run) (others : List Run) : Run where
  text := (first :: others).flatMap Run.text
  span := ⟨first.span.start, ((first :: others).getLast (by simp)).span.stop⟩

/-- The kind of content, told by the children alone. -/
def layout (e : Element) : Layout :=
  match e.runs, e.elements with
  | [], [] => .empty
  | first :: others, [] => .text (joinRuns first others)
  | [], _ :: _ => .elements
  | _ :: _, _ :: _ => .mixed

/-- The text of an element that holds nothing but text. -/
def text? (e : Element) : Option Text :=
  match e.layout with
  | .text run => some run.text
  | _ => none

end Element

end LintFixture.Markup
