import LintFixture.Proofs.Grid.Cells
import LintFixture.Proofs.Traversal

/-!
# Lines of a text

Every line from the first to the last has a region (`exists_regionOfLine`), and
every position of a text lies on one of these lines. Regions of lines are ordered
as the lines are (`regionOfLine_le_iff`).
-/

namespace LintFixture.Grid

/-- Every line has a first column. -/
theorem exists_offsetAt_line {t : Text} {l : Nat} (h : 1 ≤ l) (h' : l ≤ countLines t) :
    ∃ n, offsetAt t ⟨l, 1⟩ = .ok n := by
  obtain ⟨last, hlast, -⟩ := exists_positionAt_lineEnd h h'
  exact exists_offsetAt h h' (Nat.le_refl _) hlast
    (column_pos_of_positionFrom (positionAt_eq_ok_iff.1 hlast) Nat.one_pos)

theorem offset_le_length {t : Text} {p : Position} {n : Nat} (h : offsetAt t p = .ok n) : n ≤ t.length :=
  distance?_le_length (offsetAt_eq_ok_iff.1 h).2.2

/-- Every line of a text has a region. -/
theorem exists_regionOfLine {t : Text} {l : Nat} (h : 1 ≤ l) (h' : l ≤ countLines t) :
    ∃ r, regionOfLine t l = .ok r := by
  obtain ⟨n, hstart⟩ := exists_offsetAt_line h h'
  cases hstop : offsetAt t ⟨l + 1, 1⟩ with
  | error e =>
    have hle := offset_le_length hstart
    exact ⟨⟨n, t.length, hle⟩, by simp [regionOfLine, hstart, hstop, Region.between, hle, bind, Except.bind]⟩
  | ok m =>
    have hle : n ≤ m := distance?_mono (.inl (Nat.lt_succ_self l)) (offsetAt_eq_ok_iff.1 hstart).2.2
      (offsetAt_eq_ok_iff.1 hstop).2.2
    exact ⟨⟨n, m, hle⟩, by simp [regionOfLine, hstart, hstop, Region.between, hle, bind, Except.bind]⟩

/-- The region of a line goes from its first column to that of the next line, or to the end of the text. -/
theorem ends_of_regionOfLine {t : Text} {l : Nat} {r : Region} (h : regionOfLine t l = .ok r) :
    offsetAt t ⟨l, 1⟩ = .ok r.start ∧ (offsetAt t ⟨l + 1, 1⟩ = .ok r.stop ∨ r.stop = t.length) := by
  obtain ⟨start, hstart, h⟩ := bind_eq_ok_iff.1 h
  have hregion : ∀ stop, Region.between start stop = .ok r → r.start = start ∧ r.stop = stop := by
    intro stop hr
    unfold Region.between at hr
    split at hr
    · obtain rfl := Except.ok.inj hr
      exact ⟨rfl, rfl⟩
    · cases hr
  split at h
  · next next hnext =>
    obtain ⟨rfl, rfl⟩ := hregion _ h
    exact ⟨hstart, .inl hnext⟩
  · obtain ⟨rfl, hstop⟩ := hregion _ h
    exact ⟨hstart, .inr hstop⟩

theorem bounds_of_regionOfLine {t : Text} {l : Nat} {r : Region} (h : regionOfLine t l = .ok r) :
    offsetAt t ⟨l, 1⟩ = .ok r.start ∧ r.stop ≤ t.length := by
  obtain ⟨hstart, hnext | hstop⟩ := ends_of_regionOfLine h
  · exact ⟨hstart, offset_le_length hnext⟩
  · exact ⟨hstart, Nat.le_of_eq hstop⟩

/-- Only the lines of a text have a region. -/
theorem le_countLines_of_regionOfLine {t : Text} {l : Nat} {r : Region} (h : regionOfLine t l = .ok r) :
    1 ≤ l ∧ l ≤ countLines t :=
  line_of_offsetAt (bounds_of_regionOfLine h).1

/-- The region of a line starts at the position of its first column. -/
theorem positionAt_start_of_regionOfLine {t : Text} {l : Nat} {r : Region} (h : regionOfLine t l = .ok r) :
    positionAt t r.start = .ok ⟨l, 1⟩ := by
  obtain ⟨⟨line, column⟩, hq, rfl, hle, -⟩ := cell_of_offsetAt (bounds_of_regionOfLine h).1
  have hpos : 0 < column := column_pos_of_positionFrom (positionAt_eq_ok_iff.1 hq) Nat.one_pos
  obtain rfl : column = 1 := Nat.le_antisymm hle hpos
  exact hq

/-- The line of a position is one of the lines of the text. -/
theorem line_positionAt {t : Text} {n : Nat} {p : Position} (h : positionAt t n = .ok p) :
    1 ≤ p.line ∧ p.line ≤ countLines t := by
  have hat := positionAt_eq_ok_iff.1 h
  have hle : Position.origin ≤ p := le_of_positionFrom hat
  have hline := line_positionFrom_le hat
  simp only [Position.le_iff, Position.origin, countLines] at *
  omega

/-! ## The order of lines -/

namespace Region

variable {r s u : Region}

theorem le_iff : r ≤ s ↔ r.start < s.start ∨ (r.start = s.start ∧ r.stop ≤ s.stop) :=
  Iff.rfl

theorem le_refl (r : Region) : r ≤ r :=
  .inr ⟨rfl, Nat.le_refl _⟩

theorem le_trans (h : r ≤ s) (h' : s ≤ u) : r ≤ u := by
  rw [le_iff] at *
  omega

theorem le_total (r s : Region) : r ≤ s ∨ s ≤ r := by
  rw [le_iff, le_iff]
  omega

theorem le_antisymm (h : r ≤ s) (h' : s ≤ r) : r = s := by
  rw [le_iff] at h h'
  have hstart : r.start = s.start := by omega
  have hstop : r.stop = s.stop := by omega
  cases r
  cases s
  cases hstart
  cases hstop
  rfl

end Region

section

variable {t : Text} {l m : Nat} {r s : Region}

theorem start_lt_start_of_regionOfLine (hr : regionOfLine t l = .ok r) (hs : regionOfLine t m = .ok s)
    (h : l < m) : r.start < s.start := by
  by_contra hle
  -- a line that does not start earlier has no smaller number
  have hback : (⟨m, 1⟩ : Position) ≤ ⟨l, 1⟩ := positionAt_mono (positionAt_start_of_regionOfLine hs)
    (positionAt_start_of_regionOfLine hr) (Nat.le_of_not_lt hle)
  simp only [Position.le_iff] at hback
  omega

/-- The regions of lines come in the order of the lines. -/
theorem regionOfLine_le_iff (hr : regionOfLine t l = .ok r) (hs : regionOfLine t m = .ok s) :
    r ≤ s ↔ l ≤ m := by
  rw [Region.le_iff]
  rcases Nat.lt_trichotomy l m with h | rfl | h
  · have := start_lt_start_of_regionOfLine hr hs h
    omega
  · obtain rfl := Except.ok.inj (hr.symm.trans hs)
    omega
  · have := start_lt_start_of_regionOfLine hs hr h
    omega

/-- Text that does not end with a line feed has a character on every line. -/
theorem start_lt_stop_of_regionOfLine {front : Text} {c : Char} (hc : c ≠ '\n')
    (h : regionOfLine (front ++ [c]) l = .ok r) : r.start < r.stop := by
  have hstart := positionAt_start_of_regionOfLine h
  refine Nat.lt_of_le_of_ne r.start_le_stop fun heq => ?_
  obtain ⟨-, hnext | hstop⟩ := ends_of_regionOfLine h
  · obtain ⟨q, hq, hline, -⟩ := cell_of_offsetAt hnext
    rw [← heq, hstart] at hq
    obtain rfl := Except.ok.inj hq
    simp at hline
  · -- the cursor is past the last character, so it has left the first column
    obtain ⟨q, hq⟩ := exists_positionFrom .origin (t := front ++ [c]) (n := front.length) (by simp)
    have hend := positionFrom_succ hq List.drop_left
    rw [heq, hstop, List.length_append, List.length_singleton, positionAt_eq_ok_iff, hend] at hstart
    have hlt : q.column < columnPast q.column c [] := lt_columnPast _ (by simp [startsBreak, hc])
    have hpos := column_pos_of_positionFrom hq Nat.one_pos
    simp only [Position.advance, hc, if_false, Option.some.injEq, Position.mk.injEq] at hstart
    omega

end

end LintFixture.Grid
