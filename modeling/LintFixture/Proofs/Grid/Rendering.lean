import LintFixture.Proofs.Grid.Partition
import Mathlib.Data.List.DropRight

/-!
# The rendering of a text

The beginning of a text is rendered character by character: a tab fills its line
with spaces up to a multiple of eight, a carriage return before a line feed leaves
nothing, and all else is kept (`Renders`). A position is where a pen stands that has
written the rendering (`positionAt_eq_pen`).
-/

namespace LintFixture.Grid

/-! ## What a pen writes -/

/-- What stands behind the last line feed. -/
def lastLine (r : Text) : Text := r.rtakeWhile (· != '\n')

/-- The position behind what is written. -/
def penBehind (r : Text) : Position := ⟨1 + r.count '\n', 1 + (lastLine r).length⟩

/-- The rendering of a number of characters at the beginning of a text. Whether a carriage return is dropped
depends on the text, not on where the beginning ends. -/
inductive Renders (t : Text) : Nat → Text → Prop
  | nil : Renders t 0 []
  | tab {n fill : Nat} {r : Text} (h : Renders t n r) (hc : t[n]? = some '\t') (hfill : 1 ≤ fill ∧ fill ≤ 8)
    (hstop : 8 ∣ (lastLine r).length + fill) : Renders t (n + 1) (r ++ List.replicate fill ' ')
  | dropped {n : Nat} {r : Text} (h : Renders t n r) (hc : t[n]? = some '\r') (hnext : t[n + 1]? = some '\n') :
    Renders t (n + 1) r
  | kept {n : Nat} {r : Text} {c : Char} (h : Renders t n r) (hc : t[n]? = some c) (htab : c ≠ '\t')
    (hpair : ¬ (c = '\r' ∧ t[n + 1]? = some '\n')) : Renders t (n + 1) (r ++ [c])

theorem lastLine_append {r s : Text} (h : '\n' ∉ s) : lastLine (r ++ s) = lastLine r ++ s := by
  induction s using List.reverseRecOn with
  | nil => simp
  | append_singleton s c ih =>
    rw [List.mem_append, List.mem_singleton, not_or] at h
    rw [lastLine, ← List.append_assoc, List.rtakeWhile_concat_pos _ _ _ (by simpa using Ne.symm h.2), ← lastLine,
      ih h.1, List.append_assoc]

theorem lastLine_lineFeed (r : Text) : lastLine (r ++ ['\n']) = [] :=
  List.rtakeWhile_concat_neg _ _ _ (by decide)

/-- What is written on the line moves the pen to the right. -/
theorem penBehind_append {r s : Text} (h : '\n' ∉ s) :
    penBehind (r ++ s) = ⟨(penBehind r).line, (penBehind r).column + s.length⟩ := by
  simp [penBehind, lastLine_append h, List.count_eq_zero.2 h, Nat.add_assoc]

theorem penBehind_lineFeed (r : Text) : penBehind (r ++ ['\n']) = ⟨(penBehind r).line + 1, 1⟩ := by
  simp [penBehind, lastLine_lineFeed, Nat.add_assoc]

/-! ## The cursor stays with the pen -/

variable {t r s : Text} {n : Nat}

theorem penBehind_nil : penBehind [] = .origin := rfl

/-- A character that is kept moves the cursor as the pen. -/
theorem advance_penBehind {c : Char} {rest : Text} (htab : c ≠ '\t') (hpair : ¬ (c = '\r' ∧ rest.head? = some '\n')) :
    (penBehind r).advance c rest = penBehind (r ++ [c]) := by
  by_cases hn : c = '\n'
  · rw [hn, penBehind_lineFeed, Position.advance, if_pos rfl]
  · rw [penBehind_append (by simpa using Ne.symm hn), Position.advance, if_neg hn, columnPast, if_neg htab,
      if_neg hpair]
    rfl

/-- The spaces that fill a line up to a multiple of eight end at the tab stop. -/
theorem advance_penBehind_tab {fill : Nat} (rest : Text) (hfill : 1 ≤ fill ∧ fill ≤ 8)
    (hstop : 8 ∣ (lastLine r).length + fill) :
    (penBehind r).advance '\t' rest = penBehind (r ++ List.replicate fill ' ') := by
  have hcolumn : tabStopAfter (1 + (lastLine r).length) = 1 + (lastLine r).length + fill := by
    unfold tabStopAfter tabWidth
    omega
  rw [penBehind_append (by simp [List.mem_replicate]), List.length_replicate]
  simp [Position.advance, columnPast, penBehind, hcolumn]

theorem positionFrom_of_renders (h : Renders t n r) : positionFrom .origin t n = some (penBehind r) := by
  induction h with
  | nil => rw [positionFrom_zero, penBehind_nil]
  | tab _ hc hfill hstop ih => rw [positionFrom_succ_of_getElem? ih hc, advance_penBehind_tab _ hfill hstop]
  | dropped _ hc hnext ih =>
    rw [positionFrom_succ_of_getElem? ih hc]
    simp [Position.advance, columnPast, hnext]
  | kept _ hc htab hpair ih => rw [positionFrom_succ_of_getElem? ih hc, advance_penBehind htab (by simpa using hpair)]

/-! ## There is one rendering -/

theorem exists_renders (h : n ≤ t.length) : ∃ r, Renders t n r := by
  induction n with
  | zero => exact ⟨[], .nil⟩
  | succ n ih =>
    obtain ⟨r, hr⟩ := ih (Nat.le_of_succ_le h)
    have hc : t[n]? = some t[n] := List.getElem?_eq_getElem h
    by_cases htab : t[n] = '\t'
    · rw [htab] at hc
      exact ⟨r ++ List.replicate (8 - (lastLine r).length % 8) ' ', hr.tab hc (by omega) (by omega)⟩
    · by_cases hpair : t[n] = '\r' ∧ t[n + 1]? = some '\n'
      · exact ⟨r, hr.dropped (hc.trans (congrArg some hpair.1)) hpair.2⟩
      · exact ⟨_, hr.kept hc htab hpair⟩

theorem Renders.unique (hr : Renders t n r) (hs : Renders t n s) : r = s := by
  induction hr generalizing s with
  | nil =>
    cases hs
    rfl
  | tab _ hc hfill hstop ih =>
    cases hs with
    | tab h hc' hfill' hstop' =>
      obtain rfl := ih h
      congr 2
      omega
    | dropped _ hc' => cases hc.symm.trans hc'
    | kept _ hc' htab => exact absurd (Option.some.inj (hc'.symm.trans hc)) htab
  | dropped _ hc hnext ih =>
    cases hs with
    | tab _ hc' => cases hc.symm.trans hc'
    | dropped h => exact ih h
    | kept _ hc' _ hpair => exact absurd ⟨Option.some.inj (hc'.symm.trans hc), hnext⟩ hpair
  | kept _ hc htab hpair ih =>
    cases hs with
    | tab _ hc' => exact absurd (Option.some.inj (hc.symm.trans hc')) htab
    | dropped _ hc' hnext => exact absurd ⟨Option.some.inj (hc.symm.trans hc'), hnext⟩ hpair
    | kept h hc' => rw [ih h, Option.some.inj (hc.symm.trans hc')]

/-! ## Main statement -/

/-- Up to its end, every beginning of a text has one rendering, and what follows it has the position of a pen that has
written the rendering: on the line after as many as it has line feeds, in the column after as many as it has characters
behind the last of them. The end is on the last line. -/
theorem positionAt_eq_pen (h : n ≤ t.length) :
    (∃ r, Renders t n r ∧ (∀ s, Renders t n s → s = r) ∧
      positionAt t n = .ok ⟨1 + r.count '\n', 1 + (lastLine r).length⟩) ∧
    ∃ last, positionAt t t.length = .ok last ∧ last.line = countLines t := by
  constructor
  · obtain ⟨r, hr⟩ := exists_renders h
    exact ⟨r, hr, fun s hs => hs.unique hr, positionAt_eq_ok_iff.2 (positionFrom_of_renders hr)⟩
  · obtain ⟨last, hlast⟩ := exists_positionFrom .origin (Nat.le_refl t.length)
    rw [← positionAt_eq_ok_iff] at hlast
    refine ⟨last, hlast, ?_⟩
    rw [line_eq_count hlast, List.take_length, countLines]

/-- A tab behind a line, and a pair that the beginning cuts. -/
def cutPair : Text := ['a', '\n', 'b', '\t', '\r', '\n', 'c']

theorem positionAt_eq_pen_cutPair :
    5 ≤ cutPair.length ∧ ∃ r, Renders cutPair 5 r ∧ r = ['a', '\n', 'b'] ++ List.replicate 7 ' ' ∧
      positionAt cutPair 5 = .ok ⟨1 + r.count '\n', 1 + (lastLine r).length⟩ := by
  have hrenders : Renders cutPair 5 (['a', '\n', 'b'] ++ List.replicate 7 ' ') := by
    refine .dropped (.tab (.kept (.kept (.kept .nil ?_ ?_ ?_) ?_ ?_ ?_) ?_ ?_ ?_) ?_ ?_ ?_) ?_ ?_ <;> decide
  obtain ⟨⟨r, hr, hunique, hposition⟩, -⟩ := positionAt_eq_pen (t := cutPair) (n := 5) (by decide)
  exact ⟨by decide, r, hr, (hunique _ hrenders).symm, hposition⟩

end LintFixture.Grid
