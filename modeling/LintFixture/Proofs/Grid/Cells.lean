import LintFixture.Proofs.Grid.Walk
import Mathlib.Order.Bounds.Defs

/-!
# The cells of a line

A line has cells from its first column up to the column of its end, and no others.
Each cell leads to the last offset that begins at or before it, so all columns of
a tab lead to the tab (`offsetAt_isGreatest`).
-/

namespace LintFixture.Grid

/-! ## Where a line ends -/

/-- The offset of the terminator that closes a line, counted from 1; the length if none closes it. -/
def lineEnd : Text → Nat → Nat
  | [], _ => 0
  | c :: rest, line =>
    if line ≤ 1 ∧ startsBreak c rest then 0
    else lineEnd rest (if c = '\n' then line - 1 else line) + 1

variable {t rest : Text} {p q : Position} {c : Char} {l column n : Nat}

/-- A cursor on the line, before a terminator, stands at its end. -/
theorem lineEnd_cons_of_break (hl : p.line = l) (h : startsBreak c rest = true) :
    lineEnd (c :: rest) (l + 1 - p.line) = 0 := by
  rw [lineEnd, if_pos ⟨by omega, h⟩]

/-- Elsewhere the end stays where it is when the cursor moves on. -/
theorem lineEnd_cons (hl : p.line ≤ l) (h : p.line = l → startsBreak c rest = false) :
    lineEnd (c :: rest) (l + 1 - p.line) = lineEnd rest (l + 1 - (p.advance c rest).line) + 1 := by
  have hbreak : ¬ (l + 1 - p.line ≤ 1 ∧ startsBreak c rest = true) := by
    rintro ⟨hle, hb⟩
    rw [h (by omega)] at hb
    cases hb
  rw [lineEnd, if_neg hbreak]
  by_cases hn : c = '\n'
  · simp only [hn, if_true, Position.advance]
    congr 2
  · rw [if_neg hn, Position.line_advance_of_ne p rest hn]

/-- Before the end of a line stand the terminators of the lines before it, and what stands there is its own
terminator, whole, or nothing. -/
theorem closes_lineEnd (h : 1 ≤ l) (h' : l ≤ countLines t) :
    (t.take (lineEnd t l)).count '\n' + 1 = l ∧ endsPair t (lineEnd t l) = false ∧
      ∀ c rest, t.drop (lineEnd t l) = c :: rest → startsBreak c rest = true := by
  induction t generalizing l with
  | nil =>
    have he : l = 1 := Nat.le_antisymm h' h
    subst he
    exact ⟨rfl, rfl, by simp [lineEnd]⟩
  | cons c rest ih =>
    rw [countLines, List.count_cons] at h'
    by_cases hb : l ≤ 1 ∧ startsBreak c rest = true
    · have hzero : lineEnd (c :: rest) l = 0 := by rw [lineEnd, if_pos hb]
      rw [hzero]
      refine ⟨by simp; omega, endsPair_zero _, ?_⟩
      rintro _ _ ⟨⟩
      exact hb.2
    · have hline : 1 ≤ (if c = '\n' then l - 1 else l) ∧ (if c = '\n' then l - 1 else l) ≤ countLines rest ∧
          (if c = '\n' then l - 1 else l) + (if c == '\n' then 1 else 0) = l := by
        unfold countLines
        by_cases hn : c = '\n'
        · have hl : ¬ l ≤ 1 := fun hle => hb ⟨hle, by simp [startsBreak, hn]⟩
          simp only [hn, BEq.rfl, if_true] at h' ⊢
          omega
        · simp_all
      obtain ⟨hcount, hpair, hstop⟩ := ih hline.1 hline.2.1
      rw [lineEnd, if_neg hb]
      refine ⟨?_, ?_, hstop⟩
      · rw [List.take_succ_cons, List.count_cons]
        omega
      · cases hm : lineEnd rest (if c = '\n' then l - 1 else l) with
        | succ m =>
          rw [endsPair_cons_succ_succ, ← hm]
          exact hpair
        | zero =>
          -- a carriage return before the line feed that closes the line would have closed it
          rw [endsPair_cons_one, Bool.and_eq_false_iff]
          by_contra hp
          simp only [not_or, Bool.not_eq_false, beq_iff_eq] at hp
          obtain ⟨rfl, hr⟩ := hp
          obtain ⟨rest, rfl⟩ := List.head?_eq_some_iff.1 hr
          refine hb ⟨?_, by simp [startsBreak]⟩
          by_contra hl
          simp [lineEnd, hl] at hm

/-- A cursor that meets no terminator on its last line stays on the lines up to it. -/
theorem line_advance_le (hl : p.line ≤ l) (h : p.line = l → startsBreak c rest = false) :
    (p.advance c rest).line ≤ l := by
  by_cases hn : c = '\n'
  · have hne : p.line ≠ l := by
      intro he
      have := h he
      simp [startsBreak, hn] at this
    simp only [Position.advance, hn, if_true]
    omega
  · rwa [Position.line_advance_of_ne p rest hn]

/-- The end of a line lies on it. -/
theorem exists_positionFrom_lineEnd (hl : p.line ≤ l) (hl' : l ≤ p.line + t.count '\n') :
    ∃ q, positionFrom p t (lineEnd t (l + 1 - p.line)) = some q ∧ q.line = l := by
  induction t generalizing p with
  | nil =>
    rw [List.count_nil, Nat.add_zero] at hl'
    exact ⟨p, rfl, Nat.le_antisymm hl hl'⟩
  | cons c rest ih =>
    by_cases hb : p.line = l ∧ startsBreak c rest = true
    · rw [lineEnd_cons_of_break hb.1 hb.2]
      exact ⟨p, rfl, hb.1⟩
    · have hbreak : p.line = l → startsBreak c rest = false := fun he => by simpa [he] using hb
      rw [lineEnd_cons hl hbreak]
      exact ih (line_advance_le hl hbreak) (by rwa [Position.line_advance_add_count])

/-! ## The cell that a walk ends at -/

/-- The column of a cursor that is moved on stays at or before one that it has not passed. -/
theorem column_advance_le (hcolumn : 0 < column) (hcell : p.line = l → columnPast p.column c rest ≤ column)
    (hline : (p.advance c rest).line = l) : (p.advance c rest).column ≤ column := by
  unfold Position.advance at hline ⊢
  split
  · exact hcolumn
  · next hn =>
    rw [if_neg hn] at hline
    exact hcell hline

/-- A walk ends on the line, at or before the column: at the end of the line only on that very column,
elsewhere on a character that reaches past it. -/
theorem cell_of_distance? (hcolumn : 0 < column) (hp : p.line = l → p.column ≤ column)
    (h : distance? ⟨l, column⟩ p t = some n) :
    ∃ q, positionFrom p t n = some q ∧ q.line = l ∧ q.column ≤ column ∧
      (n = lineEnd t (l + 1 - p.line) ∧ q.column = column ∨
        n < lineEnd t (l + 1 - p.line) ∧
          ∃ next, positionFrom p t (n + 1) = some next ∧ next.line = l ∧ column < next.column) := by
  induction t generalizing p n with
  | nil =>
    unfold distance? at h
    split at h
    · next he =>
      obtain rfl := Option.some.inj h
      subst he
      exact ⟨_, rfl, rfl, Nat.le_refl _, .inl ⟨rfl, rfl⟩⟩
    · cases h
  | cons c rest ih =>
    cases n with
    | zero =>
      unfold distance? at h
      split at h
      · cases h
      · split at h
        · next hb =>
          split at h
          · next he => exact ⟨p, rfl, hb.1, hp hb.1, .inl ⟨(lineEnd_cons_of_break hb.1 hb.2).symm, he.symm⟩⟩
          · cases h
        · next hb =>
          split at h
          · next hcell =>
            have hbreak : startsBreak c rest = false := by simpa [hcell.1] using hb
            have hn : c ≠ '\n' := by
              rintro rfl
              cases hbreak
            refine ⟨p, rfl, hcell.1, hp hcell.1, .inr ⟨?_, p.advance c rest, by simp [positionFrom], ?_, ?_⟩⟩
            · rw [lineEnd_cons (Nat.le_of_eq hcell.1) fun _ => hbreak]
              exact Nat.succ_pos _
            · rw [Position.line_advance_of_ne p rest hn]
              exact hcell.1
            · simpa [Position.advance, hn] using hcell.2
          · obtain ⟨_, -, hm⟩ := Option.map_eq_some_iff.1 h
            cases hm
    | succ n =>
      obtain ⟨hle, hcell, h⟩ := distance?_cons_succ.1 h
      obtain ⟨q, hq, hline, hcol, hend⟩ := ih (column_advance_le hcolumn fun he => (hcell he).2) h
      rw [lineEnd_cons hle fun he => (hcell he).1]
      refine ⟨q, hq, hline, hcol, ?_⟩
      rcases hend with ⟨hn, he⟩ | ⟨hn, next, hnext⟩
      · exact .inl ⟨congrArg (· + 1) hn, he⟩
      · exact .inr ⟨Nat.succ_lt_succ hn, next, hnext⟩

/-- Every column up to the one of the end of the line is reached. -/
theorem exists_distance? (hcolumn : 0 < column) (hl : p.line ≤ l) (hp : p.line = l → p.column ≤ column)
    (hl' : l ≤ p.line + t.count '\n') (hq : positionFrom p t (lineEnd t (l + 1 - p.line)) = some q)
    (hend : column ≤ q.column) : ∃ n, distance? ⟨l, column⟩ p t = some n := by
  induction t generalizing p with
  | nil =>
    rw [List.count_nil, Nat.add_zero] at hl'
    obtain rfl := Option.some.inj hq
    have he : p.line = l := Nat.le_antisymm hl hl'
    have hc : p.column = column := Nat.le_antisymm (hp he) hend
    exact ⟨0, if_pos (by cases p; simp_all)⟩
  | cons c rest ih =>
    by_cases hb : p.line = l ∧ startsBreak c rest = true
    · rw [lineEnd_cons_of_break hb.1 hb.2] at hq
      obtain rfl := Option.some.inj hq
      have hc : column = p.column := Nat.le_antisymm hend (hp hb.1)
      exact ⟨0, by simp [distance?, hb, hc]⟩
    · by_cases hcell : p.line = l ∧ column < columnPast p.column c rest
      · refine ⟨0, ?_⟩
        rw [distance?, if_neg (by simp only; omega), if_neg (by simpa using hb), if_pos hcell]
      · have hbreak : p.line = l → startsBreak c rest = false := fun he => by simpa [he] using hb
        have hpast : p.line = l → columnPast p.column c rest ≤ column := fun he => by simpa [he] using hcell
        rw [lineEnd_cons hl hbreak] at hq
        obtain ⟨n, hn⟩ := ih (line_advance_le hl hbreak) (column_advance_le hcolumn hpast)
          (by rwa [Position.line_advance_add_count]) hq
        exact ⟨n + 1, distance?_cons_succ.2 ⟨hl, fun he => ⟨hbreak he, hpast he⟩, hn⟩⟩

/-- All columns of a character that begins no terminator lead to it. -/
theorem distance?_of_columnPast {p q : Position} (hq : positionFrom p t n = some q) (hc : t.drop n = c :: rest)
    (hb : startsBreak c rest = false) (hle : q.column ≤ column) (hlt : column < columnPast q.column c rest) :
    distance? ⟨q.line, column⟩ p t = some n := by
  induction t generalizing p n with
  | nil => simp at hc
  | cons d others ih =>
    cases n with
    | zero =>
      obtain rfl := Option.some.inj hq
      obtain ⟨rfl, rfl⟩ := List.cons.inj hc
      simp [distance?, hb, hlt]
    | succ n =>
      have hadvance : p.advance d others ≤ q := le_of_positionFrom hq
      have hpq : p ≤ q := Position.le_trans (p.le_advance d others) hadvance
      rw [Position.le_iff] at hadvance hpq
      refine distance?_cons_succ.2 ⟨by simp only; omega, fun hl => ?_, ih hq hc⟩
      have hd : startsBreak d others = false := by
        refine startsBreak_of_positionFrom hq hl ?_
        rintro rfl
        rw [List.drop_succ_cons, List.drop_zero] at hc
        rw [endsPair_cons_one, hc, Bool.and_eq_false_iff]
        right
        rw [startsBreak, Bool.or_eq_false_iff] at hb
        simpa using hb.1
      have hn : d ≠ '\n' := by
        rintro rfl
        cases hd
      refine ⟨hd, ?_⟩
      simp only [Position.advance, if_neg hn] at hadvance
      simp only at hl ⊢
      omega

/-- Positions come in the order of their offsets. -/
theorem positionFrom_mono {q r : Position} {m : Nat} (hq : positionFrom p t n = some q)
    (hr : positionFrom p t m = some r) (h : n ≤ m) : q ≤ r := by
  induction t generalizing p n m with
  | nil =>
    cases n with
    | zero => exact Option.some.inj hq ▸ le_of_positionFrom hr
    | succ n => cases hq
  | cons c rest ih =>
    cases n with
    | zero => exact Option.some.inj hq ▸ le_of_positionFrom hr
    | succ n =>
      cases m with
      | zero => exact absurd h (Nat.not_succ_le_zero n)
      | succ m => exact ih hq hr (Nat.le_of_succ_le_succ h)

/-! ## From the start of the text -/

theorem positionAt_eq_ok_iff : positionAt t n = .ok p ↔ positionFrom .origin t n = some p := by
  unfold positionAt
  cases positionFrom .origin t n <;> simp

theorem offsetAt_eq_ok_iff :
    offsetAt t ⟨l, column⟩ = .ok n ↔ 1 ≤ l ∧ 1 ≤ column ∧ distance? ⟨l, column⟩ .origin t = some n := by
  unfold offsetAt
  split
  · next h =>
    simp only [reduceCtorEq, false_iff]
    rintro ⟨hl, hc, -⟩
    simp only at h
    omega
  · next h =>
    simp only [not_or] at h
    cases distance? ⟨l, column⟩ .origin t <;> simp [Nat.one_le_iff_ne_zero, h]

/-- Positions in one text come in the order of their offsets. -/
theorem positionAt_mono {q : Position} {m : Nat} (hp : positionAt t n = .ok p) (hq : positionAt t m = .ok q)
    (h : n ≤ m) : p ≤ q :=
  positionFrom_mono (positionAt_eq_ok_iff.1 hp) (positionAt_eq_ok_iff.1 hq) h

/-- Every line has an end, which lies on it. -/
theorem exists_positionAt_lineEnd (h : 1 ≤ l) (h' : l ≤ countLines t) :
    ∃ q, positionAt t (lineEnd t l) = .ok q ∧ q.line = l := by
  obtain ⟨q, hq, hline⟩ := exists_positionFrom_lineEnd (p := .origin) h (by rwa [Nat.add_comm])
  exact ⟨q, positionAt_eq_ok_iff.2 hq, hline⟩

/-- What stands at the offset of a position: the end of the line, on the very column, or a character of the
line that takes the column. -/
theorem cell_of_offsetAt (h : offsetAt t ⟨l, column⟩ = .ok n) :
    ∃ q, positionAt t n = .ok q ∧ q.line = l ∧ q.column ≤ column ∧
      (n = lineEnd t l ∧ q.column = column ∨
        n < lineEnd t l ∧ ∃ next, positionAt t (n + 1) = .ok next ∧ next.line = l ∧ column < next.column) := by
  obtain ⟨-, hcolumn, hd⟩ := offsetAt_eq_ok_iff.1 h
  simp only [positionAt_eq_ok_iff]
  exact cell_of_distance? hcolumn (fun _ => hcolumn) hd

/-- The lines that positions with an offset are on. -/
theorem line_of_offsetAt (h : offsetAt t ⟨l, column⟩ = .ok n) : 1 ≤ l ∧ l ≤ countLines t := by
  obtain ⟨q, hq, rfl, -, -⟩ := cell_of_offsetAt h
  have hle := line_positionFrom_le (positionAt_eq_ok_iff.1 hq)
  refine ⟨(offsetAt_eq_ok_iff.1 h).1, ?_⟩
  rwa [countLines, Nat.add_comm]

/-- No column past the one of the end of the line has an offset. -/
theorem column_le_of_offsetAt {last : Position} (h : offsetAt t ⟨l, column⟩ = .ok n)
    (hlast : positionAt t (lineEnd t l) = .ok last) : column ≤ last.column := by
  obtain ⟨q, hq, -, -, ⟨rfl, hc⟩ | ⟨hlt, next, hnext, hline, hc⟩⟩ := cell_of_offsetAt h
  · obtain rfl := Except.ok.inj (hq.symm.trans hlast)
    exact Nat.le_of_eq hc.symm
  · obtain ⟨last', hlast', hl⟩ := exists_positionAt_lineEnd (line_of_offsetAt h).1 (line_of_offsetAt h).2
    obtain rfl := Except.ok.inj (hlast.symm.trans hlast')
    have hle := Position.le_iff.1 (positionAt_mono hnext hlast hlt)
    omega

theorem exists_offsetAt {last : Position} (h : 1 ≤ l) (h' : l ≤ countLines t) (hcolumn : 1 ≤ column)
    (hlast : positionAt t (lineEnd t l) = .ok last) (hc : column ≤ last.column) :
    ∃ n, offsetAt t ⟨l, column⟩ = .ok n := by
  obtain ⟨n, hn⟩ := exists_distance? (p := .origin) hcolumn h (fun _ => hcolumn)
    (by rwa [Nat.add_comm]) (positionAt_eq_ok_iff.1 hlast) hc
  exact ⟨n, offsetAt_eq_ok_iff.2 ⟨h, hcolumn, hn⟩⟩

/-! ## Main statement -/

/-- The offset is one of the cell's line, not past its end, and begins at or before the cell. -/
def BeginsBy (t : Text) (cell : Position) (offset : Nat) : Prop :=
  offset ≤ lineEnd t cell.line ∧ ∃ p, positionAt t offset = .ok p ∧ p.line = cell.line ∧ p.column ≤ cell.column

theorem isGreatest_of_offsetAt (h : offsetAt t ⟨l, column⟩ = .ok n) :
    IsGreatest {offset | BeginsBy t ⟨l, column⟩ offset} n := by
  obtain ⟨q, hq, hline, hc, hend⟩ := cell_of_offsetAt h
  constructor
  · refine ⟨?_, q, hq, hline, hc⟩
    rcases hend with ⟨rfl, -⟩ | ⟨hlt, -⟩
    · exact Nat.le_refl _
    · exact Nat.le_of_lt hlt
  · rintro offset ⟨hle, p, hp, hpl, hpc⟩
    simp only at hle hpl hpc
    rcases hend with ⟨rfl, -⟩ | ⟨-, next, hnext, hnl, hnc⟩
    · exact hle
    · -- a later offset begins at or after the next one, so past the column
      by_contra hgt
      have := Position.le_iff.1 (positionAt_mono hnext hp (by omega))
      omega

/-- All columns a tab takes lead to it. -/
theorem offsetAt_of_tab (htab : t[n]? = some '\t') (hp : positionAt t n = .ok p) (hle : p.column ≤ column)
    (hlt : column < tabStopAfter p.column) : offsetAt t ⟨p.line, column⟩ = .ok n := by
  have hpos : Position.origin ≤ p := le_of_positionFrom (positionAt_eq_ok_iff.1 hp)
  have hcol : 0 < p.column := column_pos_of_positionFrom (positionAt_eq_ok_iff.1 hp) Nat.one_pos
  rw [Position.le_iff] at hpos
  obtain ⟨hn, hget⟩ := List.getElem?_eq_some_iff.1 htab
  have hdrop : t.drop n = '\t' :: t.drop (n + 1) := by rw [List.drop_eq_getElem_cons hn, hget]
  refine offsetAt_eq_ok_iff.2 ⟨?_, by omega, ?_⟩
  · simp only [Position.origin] at hpos
    omega
  · exact distance?_of_columnPast (positionAt_eq_ok_iff.1 hp) hdrop rfl hle hlt

/-- A position has an offset exactly when its line exists and its column is one of the line, up to the one of
its end. The offset is the last one of the line that begins by that column, so that of a tab for all columns
the tab takes, and at the end of the line the columns agree. Any other position is refused as it was given. -/
theorem offsetAt_isGreatest (t : Text) (line column : Nat) :
    ((∃ offset, offsetAt t ⟨line, column⟩ = .ok offset) ↔
      (1 ≤ line ∧ line ≤ countLines t) ∧ 1 ≤ column ∧
        ∃ last, positionAt t (lineEnd t line) = .ok last ∧ column ≤ last.column) ∧
    (∀ offset, offsetAt t ⟨line, column⟩ = .ok offset →
      IsGreatest {o | BeginsBy t ⟨line, column⟩ o} offset ∧
        (offset = lineEnd t line → positionAt t offset = .ok ⟨line, column⟩)) ∧
    (∀ tab p, t[tab]? = some '\t' → positionAt t tab = .ok p → p.line = line → p.column ≤ column →
      column < tabStopAfter p.column → offsetAt t ⟨line, column⟩ = .ok tab) ∧
    ∀ e, offsetAt t ⟨line, column⟩ = .error e → e = .noSuchPosition ⟨line, column⟩ := by
  refine ⟨⟨?_, ?_⟩, ?_, ?_, ?_⟩
  · rintro ⟨offset, h⟩
    obtain ⟨last, hlast, -⟩ := exists_positionAt_lineEnd (line_of_offsetAt h).1 (line_of_offsetAt h).2
    exact ⟨line_of_offsetAt h, (offsetAt_eq_ok_iff.1 h).2.1, last, hlast, column_le_of_offsetAt h hlast⟩
  · rintro ⟨⟨hl, hl'⟩, hc, last, hlast, hle⟩
    exact exists_offsetAt hl hl' hc hlast hle
  · intro offset h
    refine ⟨isGreatest_of_offsetAt h, ?_⟩
    rintro rfl
    obtain ⟨⟨_, _⟩, hq, rfl, -, ⟨-, rfl⟩ | ⟨hlt, -⟩⟩ := cell_of_offsetAt h
    · exact hq
    · exact absurd hlt (Nat.lt_irrefl _)
  · rintro tab p htab hp rfl hle hlt
    exact offsetAt_of_tab htab hp hle hlt
  · intro e h
    unfold offsetAt at h
    split at h
    · exact (Except.error.inj h).symm
    · split at h
      · cases h
      · exact (Except.error.inj h).symm

/-- Two lines, the first with a tab before the pair that closes it. -/
def tabbedLine : Text := ['a', '\t', '\r', '\n', 'b']

/-- The tab takes the columns up to 8, the pair stands at column 9, and there is no column 10. -/
theorem offsetAt_isGreatest_tabbed_line :
    (tabbedLine[1]? = some '\t' ∧ positionAt tabbedLine 1 = .ok ⟨1, 2⟩ ∧
      offsetAt tabbedLine ⟨1, 8⟩ = .ok 1) ∧
    (∃ offset, offsetAt tabbedLine ⟨1, 9⟩ = .ok offset ∧ IsGreatest {o | BeginsBy tabbedLine ⟨1, 9⟩ o} offset) ∧
    ∃ e, offsetAt tabbedLine ⟨1, 10⟩ = .error e ∧ e = .noSuchPosition ⟨1, 10⟩ := by
  obtain ⟨-, -, htab, -⟩ := offsetAt_isGreatest tabbedLine 1 8
  obtain ⟨hexists, hgreatest, -, -⟩ := offsetAt_isGreatest tabbedLine 1 9
  obtain ⟨hnone, -, -, herror⟩ := offsetAt_isGreatest tabbedLine 1 10
  refine ⟨⟨rfl, rfl, htab 1 ⟨1, 2⟩ rfl rfl rfl (by decide) (by decide)⟩, ?_, ?_⟩
  · obtain ⟨offset, h⟩ := hexists.2 ⟨⟨by decide, by decide⟩, by decide, ⟨1, 9⟩, rfl, by decide⟩
    exact ⟨offset, h, (hgreatest offset h).1⟩
  · cases h : offsetAt tabbedLine ⟨1, 10⟩ with
    | ok offset =>
      obtain ⟨-, -, last, hlast, hle⟩ := hnone.1 ⟨offset, h⟩
      obtain rfl := Except.ok.inj (hlast.symm.trans (show positionAt tabbedLine 2 = .ok ⟨1, 9⟩ from rfl))
      exact absurd hle (by decide)
    | error e => exact ⟨e, rfl, herror e h⟩

end LintFixture.Grid
