import LintFixture.Markup.Splitting
import LintFixture.Proofs.Markup.Sheet
import LintFixture.Proofs.Text.Bytes
import Mathlib.Data.List.Infix

/-!
# Nothing is lost between sections

Each round of splitting takes one end mark apart and makes none (`marks_of_cut?`), so
the rounds end after as many as there are marks, with the sections of the text
(`Splitting.ends_iff`). Read one by one, each up to the first end mark, the sections
give the text back (`sections_lossless`).
-/

namespace LintFixture.Markup

/-! ## End marks -/

section

variable {t before after : Text}

/-- The number of places where the end mark of a section stands. -/
def marks (t : Text) : Nat := t.tails.countP (sectionEnd <+: ·)

theorem marks_cons (c : Char) (t : Text) : marks (c :: t) = marks t + if sectionEnd <+: c :: t then 1 else 0 := by
  rw [marks, List.tails_cons, List.countP_cons]
  simp only [decide_eq_true_eq, marks]

theorem marks_eq_zero_iff : marks t = 0 ↔ ¬ sectionEnd <:+: t := by
  simp only [marks, List.countP_eq_zero, List.mem_tails, decide_eq_true_eq, List.infix_iff_prefix_suffix, not_exists,
    not_and]
  exact forall_congr' fun _ => ⟨fun h hp hs => h hs hp, fun h hs hp => h hp hs⟩

/-- Cutting inside the first mark leaves all others, and the cut makes no new one. -/
theorem marks_of_cut? (h : Text.cut? sectionEnd t = some (before, after)) : marks t = marks ('>' :: after) + 1 := by
  induction t generalizing before with
  | nil => cases h
  | cons c t ih =>
    rw [Text.cut?] at h
    rw [marks_cons]
    cases hs : Text.strip? sectionEnd (c :: t) with
    | some rest =>
      rw [hs] at h
      obtain ⟨-, rfl⟩ := Prod.mk.inj (Option.some.inj h)
      rw [Text.strip?_eq_some_iff] at hs
      have ht : t = ']' :: '>' :: rest := (List.cons.inj hs).2
      have hnext : ¬ sectionEnd <+: ']' :: '>' :: rest := by simp [sectionEnd]
      rw [if_pos ⟨rest, hs.symm⟩, ht, marks_cons, if_neg hnext]
    | none =>
      rw [hs] at h
      obtain ⟨⟨front, tail⟩, hcut, heq⟩ := Option.map_eq_some_iff.1 h
      obtain ⟨-, rfl⟩ := Prod.mk.inj heq
      rw [if_neg (Text.strip?_eq_none_iff.1 hs), ih hcut]

end

/-! ## Rounds -/

theorem placeOf?_eq (mark : Text) (offset : Nat) (t : Text) :
    placeOf? mark offset t = (Text.cut? mark t).map fun cut => offset + Text.byteLength cut.1 := by
  induction t generalizing offset with
  | nil => cases mark <;> rfl
  | cons c t ih =>
    rw [placeOf?, Text.cut?]
    cases hs : Text.strip? mark (c :: t) with
    | some rest =>
      rw [Text.strip?_eq_some_iff] at hs
      rw [if_pos ⟨rest, hs.symm⟩]
      rfl
    | none =>
      rw [if_neg (Text.strip?_eq_none_iff.1 hs), ih]
      simp only [Option.map_map]
      congr 1
      funext cut
      simp [Nat.add_assoc]

namespace Splitting

variable {s : Splitting} {before after : Text} {parts : List Text} {rounds : Nat}

theorem round_of_none (h : Text.cut? sectionEnd s.rest = none) : s.round = .last (s.parts ++ [s.rest]) := by
  have hplace : placeOf? [']', ']', '>'] 0 s.rest = none := by
    rw [placeOf?_eq]
    exact Option.map_eq_none_iff.2 h
  rw [round, hplace]

/-- Two bytes behind the place of a mark there is a character, the last one of the mark. -/
theorem round_of_some (h : Text.cut? sectionEnd s.rest = some (before, after)) :
    s.round = .next ⟨s.parts ++ [before ++ [']', ']']], '>' :: after⟩ := by
  have hplace : placeOf? [']', ']', '>'] 0 s.rest = some (Text.byteLength before) := by
    rw [placeOf?_eq, show [']', ']', '>'] = sectionEnd from rfl, h, Option.map_some, Nat.zero_add]
  have hrest : s.rest = (before ++ [']', ']']) ++ '>' :: after := by
    simp [Text.eq_of_cut? h, sectionEnd]
  have hbytes : Text.byteLength before + 2 = Text.byteLength (before ++ [']', ']']) := by
    rw [Text.byteLength_append]
    rfl
  rw [round, hplace]
  simp only
  rw [hbytes, hrest, Text.takeBytes?_append, Text.dropBytes?_append]

/-- From any state on, the rounds take the marks apart that are left. -/
theorem ends_sections (parts : List Text) (t : Text) : Ends (marks t) ⟨parts, t⟩ (parts ++ Sheet.sections t) := by
  fun_induction Sheet.sections t generalizing parts with
  | case1 t h =>
    rw [marks_eq_zero_iff.2 (Text.not_infix_of_cut?_eq_none h)]
    exact .last (round_of_none h)
  | case2 t before after h ih =>
    rw [marks_of_cut? h, List.append_cons]
    exact .next (round_of_some h) (ih _)

/-- The rounds can end in one way only. -/
theorem Ends.unique {rounds' : Nat} {parts' : List Text} (h : Ends rounds s parts) (h' : Ends rounds' s parts') :
    rounds = rounds' ∧ parts = parts' := by
  induction h generalizing rounds' with
  | last hround =>
    cases h' with
    | last hround' => exact ⟨rfl, Round.last.inj (hround.symm.trans hround')⟩
    | next hround' _ => cases hround.symm.trans hround'
  | next hround _ ih =>
    cases h' with
    | last hround' => cases hround.symm.trans hround'
    | next hround' hs' =>
      obtain rfl := Round.next.inj (hround.symm.trans hround')
      obtain ⟨rfl, rfl⟩ := ih hs'
      exact ⟨rfl, rfl⟩

/-- Splitting ends, after one round for each mark and with the sections of the text. -/
theorem ends_iff {t : Text} : Ends rounds (start t) parts ↔ rounds = marks t ∧ parts = Sheet.sections t := by
  constructor
  · exact fun h => h.unique (ends_sections [] t)
  · rintro ⟨rfl, rfl⟩
    exact ends_sections [] t

end Splitting

/-! ## Reading the sections -/

/-- Sections without an end mark are read one by one. -/
theorem Token.readAll_sections {parts : List Text} (rest : Text) (h : ∀ part ∈ parts, ¬ sectionEnd <:+: part) :
    readAll (parts.flatMap Sheet.cdataSection ++ rest) =
      (parts.map .cdata ++ (readAll rest).1, (readAll rest).2) := by
  induction parts with
  | nil => rfl
  | cons part parts ih =>
    rw [List.forall_mem_cons] at h
    rw [List.flatMap_cons, List.append_assoc, readAll_of_read (by simp [Sheet.cdataSection]) (read_cdataSection _ h.1),
      ih h.2]
    rfl

namespace Sheet

theorem sections_ne_nil (t : Text) : sections t ≠ [] := by
  unfold sections
  split <;> exact List.cons_ne_nil _ _

theorem length_sections (t : Text) : (sections t).length = marks t + 1 := by
  fun_induction sections t with
  | case1 t h => rw [marks_eq_zero_iff.2 (Text.not_infix_of_cut?_eq_none h), List.length_singleton]
  | case2 t before after h ih => rw [List.length_cons, ih, marks_of_cut? h]

example : sections [']', ']', ']', '>', ']', ']', '>'] = [[']', ']', ']'], ['>', ']', ']'], ['>']] := by cbv

/-- A text is written in sections and read back from them. -/
structure Lossless (t : Text) : Prop where
  /-- Splitting by bytes ends, after one round for each end mark in the text. -/
  ends : ∀ rounds parts, Splitting.Ends rounds (.start t) parts ↔ rounds = marks t ∧ parts = sections t
  ne_nil : sections t ≠ []
  length : (sections t).length = marks t + 1
  /-- No section ends early. -/
  free : ∀ part ∈ sections t, ¬ sectionEnd <:+: part
  whole : (sections t).flatten = t
  /-- The markup is read as these sections, each up to the first end mark, whatever follows it. -/
  tokens : ∀ rest, Token.readAll ((sections t).flatMap cdataSection ++ rest) =
    ((sections t).map .cdata ++ (Token.readAll rest).1, (Token.readAll rest).2)
  /-- In an open element the markup adds the text and nothing else. -/
  content : ∀ frame outer root offset rest, ∃ next : Frame, next.tag = frame.tag ∧ next.elements = frame.elements ∧
    next.innerText = frame.innerText ++ t ∧
    Progress.resume ⟨frame :: outer, root⟩ offset ((sections t).flatMap cdataSection ++ rest) =
      Progress.resume ⟨next :: outer, root⟩ (offset + Text.byteLength ((sections t).flatMap cdataSection)) rest

/-- Every text is written in sections and read back from them, however its brackets run. -/
theorem sections_lossless (t : Text) : Lossless t where
  ends _ _ := Splitting.ends_iff
  ne_nil := sections_ne_nil t
  length := length_sections t
  free _ := not_infix_of_mem_sections
  whole := flatten_sections t
  tokens rest := Token.readAll_sections rest fun _ => not_infix_of_mem_sections
  content := by
    intro frame outer root offset rest
    have hread := Progress.resume_sections frame outer root offset rest
      fun part (hpart : part ∈ sections t) => not_infix_of_mem_sections hpart
    rwa [flatten_sections] at hread

end Sheet

end LintFixture.Markup
