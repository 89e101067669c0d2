import LintFixture.Proofs.Fixture.Snippet

/-!
# Extraction and indenting are inverse

The texts that extraction can give are the empty one and the settled ones
(`exists_extract_iff`). Of these, all come back from the block they are indented to but
those with a pair of carriage return and line feed (`extract_block_eq_self_iff_flush`).
-/

namespace LintFixture.Fixture.Snippet

open Text

variable {s : Text} {xs : List Text}

/-! ## Flush rows stay -/

theorem dedent_of_flush (h : Flush xs) : dedent xs = xs := by
  have hindent : indentOf xs = [] :=
    h.eq_nil_of_prefix ((prefix_indentOf_iff h.exists_content).1 List.prefix_rfl)
  rw [dedent_eq, hindent]
  conv_rhs => rw [← List.map_id xs]
  apply List.map_congr_left
  intro row hrow
  unfold dedentRow
  split
  · next hb => exact (h.blank row hrow hb).symm
  · rfl

/-- The rows, each behind the line feed of the one before and in front of a pair of its own. -/
def spread (xs : List Text) : Text := '\n' :: xs.flatMap (· ++ ['\r', '\n'])

/-- A line that ends in a pair keeps a carriage return in front of it. -/
theorem lines_spread (h : ∀ row ∈ xs, '\n' ∉ row) : lines (spread xs) = [] :: xs := by
  have hrows : lines (xs.flatMap (· ++ ['\r', '\n'])) = xs := by
    induction xs with
    | nil => rfl
    | cons row xs ih =>
      rw [List.forall_mem_cons] at h
      have hreturn : '\n' ∉ row ++ ['\r'] := by simp [h.1]
      have hpair : ∀ tail, row ++ ['\r', '\n'] ++ tail = row ++ ['\r'] ++ '\n' :: tail := by simp
      rw [List.flatMap_cons, hpair, lines_append hreturn, dropReturn_append_return, ih h.2]
  rw [spread, lines, if_pos rfl, hrows]

/-- A settled text is the code of its rows. -/
theorem extract_spread (h : Settled s) : extract (spread (rows s)) = s := by
  obtain ⟨row, others, hrows⟩ := List.exists_cons_of_ne_nil (rows_ne_nil s)
  have hfirst : allBlank row = false := h.flush.first row (by rw [hrows]; rfl)
  have hdrop : (rows s).dropWhile allBlank = rows s := by
    rw [hrows, List.dropWhile_cons_of_neg (by simp [hfirst])]
  have hextract : extractRows (spread (rows s)) = rows s := by
    rw [extractRows, lines_spread fun _ => not_mem_of_mem_rows]
    simp only [allBlank_nil, if_true]
    rw [hdrop, dedent_of_flush h.flush]
  rw [extract, hextract, join_rows, h.ends]

/-- Extraction gives the empty text and the settled ones. -/
theorem exists_extract_iff : (∃ raw, extract raw = s) ↔ s = [] ∨ Settled s := by
  constructor
  · rintro ⟨raw, rfl⟩
    exact settled_extract raw
  · rintro (rfl | h)
    · exact ⟨[], rfl⟩
    · exact ⟨spread (rows s), extract_spread h⟩

/-! ## Rows and lines -/

theorem Settled.flush_lines (h : Settled s) : Flush (lines s) := by
  rw [lines_of_settled h]
  exact h.flush.map_dropReturn

/-- A text without pairs is settled by its lines. -/
theorem settled_iff_flush_lines (h : ¬ HasPair s) : Settled s ↔ Flush (lines s) ∧ trimEnd s = s := by
  constructor
  · exact fun hs => ⟨hs.flush_lines, hs.ends⟩
  · rintro ⟨hflush, hends⟩
    have hne : s ≠ [] := by
      rintro rfl
      obtain ⟨row, hrow, -⟩ := hflush.exists_content
      cases hrow
    have hlast : s.getLast? ≠ some '\n' := fun hc => absurd (trimEnd_eq_self_iff.1 hends '\n' hc) (by decide)
    rw [lines_eq_rows hne hlast h] at hflush
    exact ⟨hflush, hends⟩

/-! ## Main statement -/

/-- A text comes back from its block exactly when it is empty, or has flush lines, no blanks at its end and no
pair. Whatever extraction gives is empty, or has flush rows and lines and no blanks at its end. -/
theorem extract_block_eq_self_iff_flush (s : Text) :
    (extract (block s) = s ↔ s = [] ∨ Flush (lines s) ∧ trimEnd s = s ∧ ¬ HasPair s) ∧
      ∀ raw, extract raw = [] ∨ Settled (extract raw) ∧ Flush (lines (extract raw)) := by
  refine ⟨⟨?_, ?_⟩, fun raw => ?_⟩
  · intro h
    rcases exists_extract_iff.1 ⟨_, h⟩ with hnil | hs
    · exact .inl hnil
    · exact .inr ⟨hs.flush_lines, hs.ends, (extract_block_eq_self_iff hs).1 h⟩
  · rintro (rfl | ⟨hflush, hends, hpair⟩)
    · exact extract_block_nil
    · exact (extract_block_eq_self_iff ((settled_iff_flush_lines hpair).2 ⟨hflush, hends⟩)).2 hpair
  · exact (settled_extract raw).imp_right fun hs => ⟨hs, hs.flush_lines⟩

/-- A deeper first line, lines that disagree on tabs and blanks, an empty line and a wide blank. -/
example : extract (block "\t a\n \u2003b\n\nc".toList) = "\t a\n \u2003b\n\nc".toList := by decide +kernel

end LintFixture.Fixture.Snippet
