import LintFixture.Markup.Document

/-!
# Nesting, recorded twice

The reader keeps the names of the open tags and holds every end tag against them.
The builder keeps the open elements and makes a check of its own, on local names,
with faults of its own. A document is built when neither finds a fault.
-/

namespace LintFixture.Markup

/-- Why no document is built. -/
inductive BuildFault where
  | reported (e : Error)
  /-- The end tag names another element than the innermost open one, whose name is at `span`. -/
  | otherEnd (expected found : Text) (span : Span)
  /-- The end tag stands outside of all elements. -/
  | strayEnd (found : Text)
  deriving DecidableEq, Repr

namespace BuildFault

def span? : BuildFault → Option Span
  | .reported e => e.span?
  | .otherEnd _ _ span => some span
  | .strayEnd _ => none

def message : BuildFault → String
  | .reported e => e.message
  | .otherEnd expected found _ =>
    s!"Mismatched end tag: expected </{String.ofList expected}>, found </{String.ofList found}>"
  | .strayEnd found =>
    s!"Invalid XML structure: Unexpected closing tag </{String.ofList found}>"

end BuildFault

/-- The names of the open tags after an event, innermost first. An end tag has to have the name of
the innermost one. -/
def checkEnd (opened : List Text) : Event → Except Error (List Text)
  | .opening tag _ => .ok (tag.name.text :: opened)
  | .closing name span =>
    match opened with
    | [] => .error (.malformed span.start (.unmatchedClose name))
    | expected :: outer =>
      if expected = name then .ok outer
      else .error (.malformed span.start (.mismatchedClose expected name))
  | .empty .. | .text _ | .verbatim _ => .ok opened

/-- Takes in one event without relying on the reader: the end tag has to have the local name of the
innermost open element. -/
def Progress.build (s : Progress) : Event → Except BuildFault Progress
  | .closing name span =>
    match s.frames with
    | [] => .error (.strayEnd (Name.ofText name).localPart)
    | frame :: outer =>
      if frame.tag.name.localPart = (Name.ofText name).localPart then
        (complete outer s.root (frame.close span.stop)).mapError .reported
      else
        .error (.otherEnd frame.tag.name.localPart (Name.ofText name).localPart frame.tag.nameSpan)
  | event => (s.step event).mapError .reported

/-- Both records: the names the reader keeps and the elements the builder keeps. -/
structure Builder where
  opened : List Text
  progress : Progress

namespace Builder

def start : Builder := ⟨[], .start⟩

/-- Takes in one event; the reader comes first. -/
def step (b : Builder) (event : Event) : Except BuildFault Builder :=
  match checkEnd b.opened event with
  | .error e => .error (.reported e)
  | .ok opened => (b.progress.build event).map fun progress => ⟨opened, progress⟩

end Builder

/-- Reads a document with both records. -/
def Document.build (t : Text) : Except BuildFault Document :=
  let stream := Stream.read (dropMark t)
  match stream.events.foldlM Builder.step .start with
  | .error fault => .error fault
  | .ok last =>
    match stream.failure with
    | some e => .error (.reported e)
    | none => (last.progress.finish.map fun root => ⟨root, ⟨0, Text.byteLength t⟩⟩).mapError .reported

end LintFixture.Markup
