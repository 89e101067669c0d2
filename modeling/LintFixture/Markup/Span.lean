import LintFixture.Text.Basic

/-!
# Spans

A span is a half-open range of byte offsets into a document. A place is where a
reader stands: a byte offset and the text ahead of it.
-/

namespace LintFixture.Markup

/-- The bytes from `start` up to, not including, `stop`. -/
structure Span where
  start : Nat
  stop : Nat
  deriving DecidableEq, Repr

/-- What a span covers in a document; none if it leaves it or cuts a character. -/
def Span.slice? (s : Span) (document : Text) : Option Text :=
  document.sliceBytes? s.start s.stop

/-- A byte offset and the text that begins there. -/
structure Place where
  offset : Nat
  ahead : Text
  deriving DecidableEq, Repr

namespace Place

/-- The place after the longest run of characters that satisfy `p`. -/
def skip (p : Char → Bool) (here : Place) : Place :=
  ⟨here.offset + Text.byteLength (here.ahead.takeWhile p), here.ahead.dropWhile p⟩

theorem length_ahead_skip_le (p : Char → Bool) (here : Place) :
    (here.skip p).ahead.length ≤ here.ahead.length :=
  (List.dropWhile_suffix p).length_le

end Place

end LintFixture.Markup
