import LintFixture.Proofs.Markup.Content

/-!
# How reading ends

A text in which the reader finds no fault ends in one of four ways, and which one
is told by the elements that are complete outside of all others and by those still
open (`Document.outcome`). Their numbers are told by the tags alone (`Pending.tally`),
so nothing that stands between the tags matters.
-/

namespace LintFixture.Markup

open Text (byteLength)
open Token (sources)

/-! ## The four endings -/

/-- What a result is. -/
inductive Ending where
  | root
  | secondRoot
  | unclosed
  | noRoot
  | malformed
  deriving DecidableEq, Repr

def Ending.of : Except Error Document → Ending
  | .ok _ => .root
  | .error (.secondRoot _) => .secondRoot
  | .error (.unclosed ..) => .unclosed
  | .error .noRoot => .noRoot
  | .error (.malformed ..) => .malformed

/-- How a text is read, by the complete elements outside of all others and the open ones, innermost first. -/
structure Outcome (t : Text) (complete : List Element) (frames : List Frame) : Prop where
  secondRoot : ∀ span, Document.parse t = .error (.secondRoot span) ↔
    ∃ first second others, complete = first :: second :: others ∧ span = second.span
  unclosed : ∀ name span, Document.parse t = .error (.unclosed name span) ↔
    complete.length ≤ 1 ∧ ∃ f outer, frames = f :: outer ∧ name = f.tag.name.localPart ∧ span = f.tag.nameSpan
  noRoot : Document.parse t = .error .noRoot ↔ complete = [] ∧ frames = []
  root : ∀ d, Document.parse t = .ok d ↔ ∃ root, complete = [root] ∧ frames = [] ∧ d = ⟨root, ⟨0, byteLength t⟩⟩
  malformed : ∀ position fault, Document.parse t ≠ .error (.malformed position fault)

theorem Readable.outcome_of_pending {t : Text} {tokens : List Token} {pieces : List Piece} {frames : List Frame}
    (h : Readable t) (hall : Token.readAll (dropMark t) = (tokens, none)) (hp : Pending tokens pieces frames) :
    Outcome t (pieces.filterMap Piece.element?) frames := by
  have hparse := Document.parse_of_pending h hall hp
  rcases hcomplete : pieces.filterMap Piece.element? with _ | ⟨first, _ | ⟨second, others⟩⟩
  · rw [hcomplete] at hparse
    cases frames with
    | nil =>
      have hnone : Document.parse t = .error .noRoot := hparse
      constructor <;> simp [hnone]
    | cons f outer =>
      have hopen : Document.parse t = .error (.unclosed f.tag.name.localPart f.tag.nameSpan) := hparse
      constructor <;> simp [hopen, eq_comm]
  · rw [hcomplete] at hparse
    cases frames with
    | nil =>
      have hroot : Document.parse t = .ok ⟨first, ⟨0, byteLength t⟩⟩ := hparse
      constructor <;> simp [hroot, eq_comm]
    | cons f outer =>
      have hopen : Document.parse t = .error (.unclosed f.tag.name.localPart f.tag.nameSpan) := hparse
      constructor <;> simp [hopen, eq_comm]
  · rw [hcomplete] at hparse
    have hsecond : Document.parse t = .error (.secondRoot second.span) := hparse
    constructor <;> simp [hsecond, eq_comm]

/-! ## Counting tags -/

/-- How many elements are open, and how many are complete outside of all others. -/
structure Tally where
  opened : Nat
  complete : Nat
  deriving DecidableEq, Repr

namespace Tally

def start : Tally := ⟨0, 0⟩

/-- Adds complete elements; inside an open one they do not count. -/
def add (s : Tally) (n : Nat) : Tally := if s.opened = 0 then ⟨0, s.complete + n⟩ else s

/-- Counts one token; what is no tag does not count. -/
def count (s : Tally) : Token → Tally
  | .openTag _ => ⟨s.opened + 1, s.complete⟩
  | .closeTag _ => add ⟨s.opened - 1, s.complete⟩ 1
  | .emptyTag _ => s.add 1
  | _ => s

/-- How a text with those numbers ends. -/
def ending (s : Tally) : Ending :=
  if 2 ≤ s.complete then .secondRoot
  else if 0 < s.opened then .unclosed
  else if s.complete = 0 then .noRoot
  else .root

theorem add_zero (s : Tally) : s.add 0 = s := by
  obtain ⟨opened, complete⟩ := s
  unfold add
  split
  · next h => simp_all
  · rfl

theorem add_add (s : Tally) (m n : Nat) : (s.add m).add n = s.add (m + n) := by
  unfold add
  split
  · simp [Nat.add_assoc]
  · rfl

theorem add_inside (opened complete n : Nat) : add ⟨opened + 1, complete⟩ n = ⟨opened + 1, complete⟩ :=
  if_neg (Nat.succ_ne_zero opened)

end Tally

/-- A start tag, an end tag or an empty tag. -/
def Token.isTag : Token → Bool
  | .openTag _ | .closeTag _ | .emptyTag _ => true
  | _ => false

theorem Tally.count_of_not_isTag {token : Token} (h : token.isTag = false) (s : Tally) : s.count token = s := by
  cases token <;> first | rfl | cases h

/-- Content adds its elements. -/
theorem Content.foldl_count {offset : Nat} {tokens : List Token} {pieces : List Piece}
    (h : Content offset tokens pieces) (s : Tally) :
    tokens.foldl Tally.count s = s.add (pieces.filterMap Piece.element?).length := by
  induction h generalizing s with
  | nil => exact s.add_zero.symm
  | @silent _ token _ _ ht _ ih => cases token <;> first | exact ih s | cases ht
  | run _ _ ih => exact ih s
  | cdata _ ih => exact ih s
  | empty _ _ ih =>
    rw [List.foldl_cons, ih, Tally.count, Tally.add_add, Nat.add_comm 1]
    rfl
  | @element _ _ content close _ inside tokens _ _ _ _ _ _ _ ihinside ih =>
    -- inside the open element nothing counts, and its end tag adds it to what is around
    rw [List.foldl_cons, List.foldl_append, List.foldl_cons, ihinside, ih, Tally.count, Tally.add_inside, Tally.count,
      Nat.add_sub_cancel, Tally.add_add, Nat.add_comm 1]
    rfl

/-- All tokens so far add the elements outside and leave the open ones. -/
theorem Pending.foldl_count {done : List Token} {pieces : List Piece} {frames : List Frame}
    (h : Pending done pieces frames) :
    done.foldl Tally.count .start = ⟨frames.length, (pieces.filterMap Piece.element?).length⟩ := by
  induction h with
  | outside h =>
    rw [h.foldl_count]
    exact congrArg (Tally.mk 0) (Nat.zero_add _)
  | inside _ _ hinside ih =>
    rw [List.foldl_append, List.foldl_cons, ih, hinside.foldl_count, Tally.count, Tally.add_inside]
    rfl

/-! ## Main statement -/

/-- The tags of a text, in document order. -/
def tagsOf (t : Text) : List Token := (Token.readAll (dropMark t)).1.filter Token.isTag

/-- How a text ends in which the reader finds no fault is told by its tags. -/
theorem Readable.ending_eq {t : Text} (h : Readable t) :
    Ending.of (Document.parse t) = ((tagsOf t).foldl Tally.count .start).ending := by
  obtain ⟨tokens, pieces, frames, hall, hp⟩ := h.exists_pending
  have htally : (tagsOf t).foldl Tally.count .start = ⟨frames.length, (pieces.filterMap Piece.element?).length⟩ := by
    rw [tagsOf, hall, List.foldl_filter, ← hp.foldl_count]
    congr 1
    funext s token
    cases htag : token.isTag with
    | true => rfl
    | false => exact (Tally.count_of_not_isTag htag s).symm
  rw [htally, Document.parse_of_pending h hall hp]
  rcases pieces.filterMap Piece.element? with _ | ⟨first, _ | ⟨second, others⟩⟩
  · cases frames <;> rfl
  · cases frames <;> rfl
  · simp [Tally.ending, Progress.ofComplete, bind, Except.bind, Except.map, Ending.of]

/-- The builder never objects to an end tag, since its open elements have the names the reader has kept. A text in which
the reader finds no fault ends as its complete and its open elements tell, and which way is told by its tags alone. -/
theorem Document.outcome (t : Text) :
    (∀ expected found span, Document.build t ≠ .error (.otherEnd expected found span)) ∧
    (∀ found, Document.build t ≠ .error (.strayEnd found)) ∧
    Document.build t = (Document.parse t).mapError .reported ∧
    (∀ done b, done <+: (Stream.read (dropMark t)).events → done.foldlM Builder.step .start = .ok b →
      b.opened = b.progress.names) ∧
    (Readable t →
      (∃ tokens, Token.readAll (dropMark t) = (tokens, none) ∧ (∃ pieces frames, Pending tokens pieces frames) ∧
        ∀ pieces frames, Pending tokens pieces frames → Outcome t (pieces.filterMap Piece.element?) frames) ∧
      ∀ other, Readable other → tagsOf other = tagsOf t →
        Ending.of (Document.parse other) = Ending.of (Document.parse t)) := by
  have hbuild := Document.build_eq t
  refine ⟨?_, ?_, hbuild, fun done b => Builder.opened_of_foldlM, fun h => ⟨?_, ?_⟩⟩
  · intro expected found span hother
    rw [hbuild] at hother
    cases hparse : Document.parse t with
    | ok d => rw [hparse] at hother; cases hother
    | error e => rw [hparse] at hother; cases hother
  · intro found hstray
    rw [hbuild] at hstray
    cases hparse : Document.parse t with
    | ok d => rw [hparse] at hstray; cases hstray
    | error e => rw [hparse] at hstray; cases hstray
  · obtain ⟨tokens, pieces, frames, hall, hp⟩ := h.exists_pending
    exact ⟨tokens, hall, ⟨pieces, frames, hp⟩, fun _ _ hp => h.outcome_of_pending hall hp⟩
  · intro other hother htags
    rw [h.ending_eq, hother.ending_eq, htags]

/-- A complete element and two open ones. -/
def Document.openText : Text := "<a/><b:r><c>".toList

/-- The same tags, with a document type, a comment and text around them. -/
def Document.openTextWithin : Text := "<!DOCTYPE r>x<a/><!-- c --><![CDATA[y]]><b:r><c>z".toList

theorem Document.outcome_open :
    Readable openText ∧ Readable openTextWithin ∧ tagsOf openTextWithin = tagsOf openText ∧
      Ending.of (Document.parse openText) = .unclosed ∧
      (∃ tokens, Token.readAll (dropMark openText) = (tokens, none) ∧ (∃ pieces frames, Pending tokens pieces frames) ∧
        ∀ pieces frames, Pending tokens pieces frames → Outcome openText (pieces.filterMap Piece.element?) frames) ∧
      Ending.of (Document.parse openTextWithin) = Ending.of (Document.parse openText) := by
  have hopen : Readable openText :=
    ⟨by decide +kernel, [['c'], ['b', ':', 'r']], toOption_eq_some_iff.1 (by decide +kernel)⟩
  have hwithin : Readable openTextWithin :=
    ⟨by decide +kernel, [['c'], ['b', ':', 'r']], toOption_eq_some_iff.1 (by decide +kernel)⟩
  have htags : tagsOf openTextWithin = tagsOf openText := by decide +kernel
  obtain ⟨houtcome, hsame⟩ := (Document.outcome openText).2.2.2.2 hopen
  exact ⟨hopen, hwithin, htags, by decide +kernel, houtcome, hsame openTextWithin hwithin htags⟩

end LintFixture.Markup
