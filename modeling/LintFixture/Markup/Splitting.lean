import LintFixture.Markup.Sheet

/-!
# Splitting a text into sections, by bytes

The sections of a text are cut off one after the other. A round looks for the first
end mark that is left and cuts two bytes behind its place, inside the mark; what is
left when there is no mark is the last section. A place inside a character cannot be
cut at.
-/

namespace LintFixture.Markup

/-- The byte at which a mark first stands, in a text that begins at `offset`. -/
def placeOf? (mark : Text) (offset : Nat) : Text → Option Nat
  | [] => if mark = [] then some offset else none
  | c :: t => if mark <+: c :: t then some offset else placeOf? mark (offset + c.utf8Size) t

/-- The sections that were cut off, and the text that is left. -/
structure Splitting where
  parts : List Text
  rest : Text

/-- What a round of splitting comes to. -/
inductive Round where
  /-- There was no mark, and these are all sections. -/
  | last (parts : List Text)
  | next (s : Splitting)
  /-- The place to cut at lies inside a character. -/
  | torn

namespace Splitting

/-- Before the first round. -/
def start (t : Text) : Splitting := ⟨[], t⟩

/-- One round of splitting. -/
def round (s : Splitting) : Round :=
  match placeOf? [']', ']', '>'] 0 s.rest with
  | none => .last (s.parts ++ [s.rest])
  | some place =>
    match Text.takeBytes? s.rest (place + 2), Text.dropBytes? s.rest (place + 2) with
    | some part, some rest => .next ⟨s.parts ++ [part], rest⟩
    | _, _ => .torn

/-- After so many rounds that cut a section off comes the last one, with these sections in all. -/
inductive Ends : Nat → Splitting → List Text → Prop
  | last {s : Splitting} {parts : List Text} (h : s.round = .last parts) : Ends 0 s parts
  | next {rounds : Nat} {s s' : Splitting} {parts : List Text} (h : s.round = .next s')
    (hs : Ends rounds s' parts) : Ends (rounds + 1) s parts

end Splitting

end LintFixture.Markup
