import LintFixture.Proofs.Grid.Partition

/-!
# Positions in the region of a line

The region of a line tells the positions of the line from all others, whatever column
they have: those inside a tab and that of the terminator are on the line, and the end of
the text is on none (`containsCell_regionOfLine`). A position with no offset is an error
there, never outside.
-/

namespace LintFixture.Grid

variable {t : Text} {l n : Nat} {p : Position} {r : Region}

theorem Region.containsCell_eq (r : Region) (t : Text) (p : Position) :
    r.containsCell t p = (offsetAt t p).map r.contains := by
  unfold containsCell
  cases offsetAt t p <;> rfl

/-- What stands at the offset of a position is on the line of the position. -/
theorem exists_positionAt_of_offsetAt (h : offsetAt t p = .ok n) :
    ∃ q, positionAt t n = .ok q ∧ q.line = p.line := by
  obtain ⟨q, hq, hline, -⟩ := cell_of_offsetAt h
  exact ⟨q, hq, hline⟩

/-- The region of a line contains the offsets of the positions on it, but for the end of the text. -/
theorem contains_iff_of_offsetAt (hr : regionOfLine t l = .ok r) (h : offsetAt t p = .ok n) :
    r.contains n = true ↔ p.line = l ∧ n < t.length := by
  obtain ⟨q, hq, hline⟩ := exists_positionAt_of_offsetAt h
  rcases Nat.lt_or_eq_of_le (offset_le_length h) with hlt | rfl
  · rw [contains_iff_of_regionOfLine hr hlt hq, hline, and_iff_left hlt]
  · have hstop := (bounds_of_regionOfLine hr).2
    simp only [Region.contains, Bool.and_eq_true, decide_eq_true_eq]
    omega

theorem containsCell_of_offsetAt (hr : regionOfLine t l = .ok r) (h : offsetAt t p = .ok n) :
    r.containsCell t p = .ok (decide (p.line = l ∧ n < t.length)) := by
  have hcontains : r.contains n = decide (p.line = l ∧ n < t.length) :=
    Bool.eq_iff_iff.2 ((contains_iff_of_offsetAt hr h).trans decide_eq_true_iff.symm)
  rw [r.containsCell_eq, h, ← hcontains]
  rfl

/-- Neighbouring lines neither share a position nor leave one out. -/
theorem existsUnique_line_containsCell (h : offsetAt t p = .ok n) (hn : n < t.length) :
    ∃! l, ∃ r, regionOfLine t l = .ok r ∧ r.containsCell t p = .ok true := by
  obtain ⟨hpos, hle⟩ := line_of_offsetAt h
  obtain ⟨r, hr⟩ := exists_regionOfLine hpos hle
  refine ⟨p.line, ⟨r, hr, ?_⟩, ?_⟩
  · rw [containsCell_of_offsetAt hr h, decide_eq_true ⟨rfl, hn⟩]
  · rintro l ⟨s, hs, hcontains⟩
    rw [containsCell_of_offsetAt hs h] at hcontains
    exact (of_decide_eq_true (Except.ok.inj hcontains)).1.symm

/-- The region of a line contains exactly the positions on the line that have a character. A position without
an offset is refused as it is elsewhere. -/
theorem containsCell_regionOfLine (h : 1 ≤ l) (h' : l ≤ countLines t) :
    ∃ r, regionOfLine t l = .ok r ∧
      (∀ p n, offsetAt t p = .ok n → r.containsCell t p = .ok (decide (p.line = l ∧ n < t.length))) ∧
      ∀ p e, offsetAt t p = .error e → r.containsCell t p = .error e := by
  obtain ⟨r, hr⟩ := exists_regionOfLine h h'
  refine ⟨r, hr, fun p n hp => containsCell_of_offsetAt hr hp, ?_⟩
  intro p e hp
  rw [r.containsCell_eq, hp]
  rfl

/-- Three lines, the second with a tab before the pair that closes it, the last one empty. -/
def middleTab : Text := ['a', '\n', '\t', '\r', '\n']

/-- The tab takes columns 1 to 8 of the second line, and its terminator stands at column 9. The terminator of
the first line is not on the second one, the end of the text is on no line, and column 10 is nowhere. -/
theorem containsCell_regionOfLine_middle_tab :
    (1 ≤ 2 ∧ 2 ≤ countLines middleTab) ∧ ∃ r, regionOfLine middleTab 2 = .ok r ∧
      r.containsCell middleTab ⟨2, 5⟩ = .ok true ∧ r.containsCell middleTab ⟨2, 9⟩ = .ok true ∧
      r.containsCell middleTab ⟨1, 2⟩ = .ok false ∧ r.containsCell middleTab ⟨3, 1⟩ = .ok false ∧
      r.containsCell middleTab ⟨2, 10⟩ = .error (.noSuchPosition ⟨2, 10⟩) := by
  have hline : 1 ≤ 2 ∧ 2 ≤ countLines middleTab := by decide
  obtain ⟨r, hr, haccepted, hrefused⟩ := containsCell_regionOfLine hline.1 hline.2
  exact ⟨hline, r, hr, haccepted ⟨2, 5⟩ 2 rfl, haccepted ⟨2, 9⟩ 3 rfl, haccepted ⟨1, 2⟩ 1 rfl,
    haccepted ⟨3, 1⟩ 5 rfl, hrefused ⟨2, 10⟩ _ rfl⟩

end LintFixture.Grid
