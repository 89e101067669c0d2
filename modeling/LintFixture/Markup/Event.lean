import LintFixture.Markup.Element
import LintFixture.Markup.Token

/-!
# Events

An event is a token with its spans, its names split and its text decoded.
Comments, instructions and document types make no event. Reading stops at the
first fault and keeps the events before it.
-/

namespace LintFixture.Markup

/-- What a token means for the tree. -/
inductive Event where
  /-- A start tag; its `<` is at `start`. -/
  | opening (tag : Tag) (start : Nat)
  | closing (name : Text) (span : Span)
  | empty (tag : Tag) (span : Span)
  /-- Decoded text between two pieces of markup. -/
  | text (run : Run)
  /-- The content of a CDATA section, as it stands. -/
  | verbatim (run : Run)
  deriving DecidableEq, Repr

/-- The events of a text up to its first fault. -/
structure Stream where
  events : List Event
  failure : Option Error
  deriving DecidableEq, Repr

/-- The name in a closing tag, without the gap after it; a gap alone is kept. -/
def closingName (content : Text) : Text :=
  if content.all isGap then content else content.dropEndWhile isGap

/-- What the token that starts at `offset` means, if anything. -/
def Token.event (offset : Nat) (token : Token) : Except Error (Option Event) :=
  let span : Span := ⟨offset, offset + Text.byteLength token.source⟩
  match token with
  | .run chars =>
    match unescape chars with
    | .ok text => .ok (some (.text ⟨text, span⟩))
    | .error e => .error (.malformed offset (.text e))
  | .cdata body => .ok (some (.verbatim ⟨body, span⟩))
  | .comment _ | .instruction _ => .ok none
  | .doctype _ body =>
    if body.all isGap then .error (.malformed (span.stop - 1) .namelessDoctype) else .ok none
  | .closeTag content => .ok (some (.closing (closingName content) span))
  | .openTag content =>
    match Tag.read (offset + 1) content with
    | .ok tag => .ok (some (.opening tag offset))
    | .error e => .error (.malformed offset e)
  | .emptyTag content =>
    match Tag.read (offset + 1) content with
    | .ok tag => .ok (some (.empty tag span))
    | .error e => .error (.malformed offset e)

/-- The events of tokens that begin at `offset` and end at a fault or with the text. -/
def Stream.ofTokens (offset : Nat) : List Token → Option Fault → Stream
  | [], fault => ⟨[], fault.map (.malformed offset)⟩
  | token :: tokens, fault =>
    match token.event offset with
    | .error e => ⟨[], some e⟩
    | .ok event =>
      let later := ofTokens (offset + Text.byteLength token.source) tokens fault
      ⟨event.toList ++ later.events, later.failure⟩

/-- The events of a text. -/
def Stream.read (t : Text) : Stream :=
  let (tokens, fault) := Token.readAll t
  .ofTokens 0 tokens fault

end LintFixture.Markup
