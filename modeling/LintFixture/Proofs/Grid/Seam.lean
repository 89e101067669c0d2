import LintFixture.Proofs.Grid.Partition

/-!
# Coordinates are local to lines

Where a line feed joins two texts, coordinates behind it are those of the second
text, moved by the lines and the characters of the first. Coordinates before it are
those of the first text, unless it ends with a carriage return that the line feed
makes part of a pair (`coordinates_joined`).
-/

namespace LintFixture.Grid

variable {a b t rest : Text} {c : Char} {p q target : Position} {column m n : Nat}

/-! ## Further down -/

/-- The position `k` lines further down. -/
def Position.down (k : Nat) (p : Position) : Position := ⟨k + p.line, p.column⟩

theorem Position.line_down (k : Nat) (p : Position) : (p.down k).line = k + p.line := rfl

theorem Position.column_down (k : Nat) (p : Position) : (p.down k).column = p.column := rfl

theorem Position.advance_down (k : Nat) (p : Position) (c : Char) (rest : Text) :
    (p.down k).advance c rest = (p.advance c rest).down k := by
  unfold advance down
  split <;> rfl

theorem positionFrom_down (k : Nat) (p : Position) (t : Text) (n : Nat) :
    positionFrom (p.down k) t n = (positionFrom p t n).map (Position.down k) := by
  induction t generalizing p n with
  | nil => cases n <;> rfl
  | cons c rest ih =>
    cases n with
    | zero => rfl
    | succ n => rw [positionFrom, positionFrom, Position.advance_down, ih]

/-- The way between two places does not depend on the number of lines above them. -/
theorem distance?_down (k : Nat) (target p : Position) (t : Text) :
    distance? (target.down k) (p.down k) t = distance? target p t := by
  induction t generalizing p with
  | nil =>
    have heq : p.down k = target.down k ↔ p = target := by
      cases p
      cases target
      simp [Position.down]
    simp only [distance?, heq]
  | cons c rest ih =>
    simp only [distance?, Position.advance_down, ih, Position.line_down, Position.column_down, Nat.add_lt_add_iff_left,
      Nat.add_left_cancel_iff]
    rfl

/-! ## Behind the line feed -/

/-- A walk goes on from where the first characters of it lead. -/
theorem positionFrom_add (h : positionFrom p t n = some q) (m : Nat) :
    positionFrom p t (n + m) = positionFrom q (t.drop n) m := by
  induction t generalizing p n with
  | nil =>
    cases n with
    | zero => rw [Nat.zero_add, ← Option.some.inj h, List.drop_zero]
    | succ n => cases h
  | cons c rest ih =>
    cases n with
    | zero => rw [Nat.zero_add, ← Option.some.inj ((positionFrom_zero ..).symm.trans h), List.drop_zero]
    | succ n =>
      rw [Nat.add_right_comm, positionFrom, List.drop_succ_cons]
      exact ih h

/-- The walk to a later line passes a character. -/
theorem distance?_cons_of_line_lt (c : Char) (rest : Text) (h : p.line < target.line) :
    distance? target p (c :: rest) = (distance? target (p.advance c rest) rest).map (· + 1) := by
  rw [distance?, if_neg (by omega), if_neg (by omega), if_neg (by omega)]

/-- The walk to a later line passes all characters up to one on an earlier line, and that one too. -/
theorem distance?_of_line_lt (hq : positionFrom p t n = some q) (hc : t.drop n = c :: rest)
    (h : q.line < target.line) :
    distance? target p t = (distance? target (q.advance c rest) rest).map (· + (n + 1)) := by
  induction t generalizing p n with
  | nil => simp at hc
  | cons d others ih =>
    have hpq := le_of_positionFrom hq
    rw [Position.le_iff] at hpq
    rw [distance?_cons_of_line_lt d others (by omega)]
    cases n with
    | zero =>
      obtain ⟨rfl, rfl⟩ := List.cons.inj hc
      rw [Option.some.inj hq]
    | succ n =>
      rw [ih hq hc, Option.map_map]
      rfl

/-- The line feed stands on the last line of the text before it. -/
theorem exists_positionFrom_lineFeed (a b : Text) :
    ∃ q, positionFrom .origin (a ++ '\n' :: b) a.length = some q ∧ q.line = countLines a ∧
      q.advance '\n' b = Position.origin.down (countLines a) := by
  obtain ⟨q, hq⟩ := exists_positionFrom .origin (t := a ++ '\n' :: b) (n := a.length) (by simp)
  have hline : q.line = countLines a := by
    rw [line_positionFrom hq, List.take_left, Position.origin, countLines, Nat.add_comm]
  exact ⟨q, hq, hline, by simp [Position.advance, Position.down, Position.origin, hline]⟩

theorem positionFrom_behind (a b : Text) (n : Nat) :
    positionFrom .origin (a ++ '\n' :: b) (a.length + 1 + n) =
      (positionFrom .origin b n).map (Position.down (countLines a)) := by
  obtain ⟨q, hq, -, hnext⟩ := exists_positionFrom_lineFeed a b
  have hbehind := positionFrom_succ hq List.drop_left
  have hdrop : (a ++ '\n' :: b).drop (a.length + 1) = b := by simp
  rw [positionFrom_add hbehind, hnext, hdrop, positionFrom_down]

theorem distance?_behind (a b : Text) (target : Position) (h : 1 ≤ target.line) :
    distance? (target.down (countLines a)) .origin (a ++ '\n' :: b) =
      (distance? target .origin b).map (· + (a.length + 1)) := by
  obtain ⟨q, hq, hline, hnext⟩ := exists_positionFrom_lineFeed a b
  have hlt : q.line < (target.down (countLines a)).line := by
    rw [Position.line_down]
    omega
  rw [distance?_of_line_lt hq List.drop_left hlt, hnext, distance?_down]

/-! ## Before the line feed -/

/-- Only a carriage return at the end sees the line feed that follows. -/
theorem head?_append_lineFeed (hend : (c :: rest).getLast? ≠ some '\r') (hc : c = '\r') :
    (rest ++ '\n' :: b).head? = rest.head? := by
  cases rest with
  | nil => exact absurd (congrArg some hc) hend
  | cons d rest => rfl

theorem columnPast_append_lineFeed (column : Nat) (hend : (c :: rest).getLast? ≠ some '\r') :
    columnPast column c (rest ++ '\n' :: b) = columnPast column c rest := by
  by_cases hc : c = '\r'
  · rw [columnPast, columnPast, head?_append_lineFeed hend hc]
  · simp [columnPast, hc]

theorem startsBreak_append_lineFeed (hend : (c :: rest).getLast? ≠ some '\r') :
    startsBreak c (rest ++ '\n' :: b) = startsBreak c rest := by
  by_cases hc : c = '\r'
  · rw [startsBreak, startsBreak, head?_append_lineFeed hend hc]
  · rw [startsBreak, startsBreak, beq_eq_false_iff_ne.2 hc, Bool.false_and, Bool.false_and]

theorem Position.advance_append_lineFeed (p : Position) (hend : (c :: rest).getLast? ≠ some '\r') :
    p.advance c (rest ++ '\n' :: b) = p.advance c rest := by
  rw [advance, advance, columnPast_append_lineFeed _ hend]

theorem getLast?_ne_of_cons (hend : (c :: rest).getLast? ≠ some '\r') : rest.getLast? ≠ some '\r' := by
  cases rest with
  | nil => exact nofun
  | cons d rest => rwa [List.getLast?_cons_cons] at hend

theorem positionFrom_before (b : Text) (hend : a.getLast? ≠ some '\r') (h : n ≤ a.length) :
    positionFrom p (a ++ '\n' :: b) n = positionFrom p a n := by
  induction a generalizing p n with
  | nil =>
    obtain rfl := Nat.le_zero.1 h
    rfl
  | cons c rest ih =>
    cases n with
    | zero => rfl
    | succ n =>
      rw [List.cons_append, positionFrom, positionFrom, Position.advance_append_lineFeed p hend]
      exact ih (getLast?_ne_of_cons hend) (Nat.le_of_succ_le_succ h)

/-- On the lines of the first text a walk ends at the line feed as it does at the end of the text. -/
theorem distance?_before (b : Text) (hend : a.getLast? ≠ some '\r') (h : target.line ≤ p.line + a.count '\n') :
    distance? target p (a ++ '\n' :: b) = distance? target p a := by
  induction a generalizing p with
  | nil =>
    obtain ⟨line, column⟩ := p
    obtain ⟨targetLine, targetColumn⟩ := target
    rw [List.count_nil] at h
    simp only [List.nil_append, distance?, startsBreak, BEq.rfl, Bool.true_or, and_true, Position.mk.injEq]
    grind
  | cons c rest ih =>
    rw [List.cons_append, distance?, distance?, startsBreak_append_lineFeed hend, columnPast_append_lineFeed _ hend,
      Position.advance_append_lineFeed p hend, ih (getLast?_ne_of_cons hend) (by rwa [Position.line_advance_add_count])]

/-! ## Main statement -/

/-- What the coordinates of a text are that a line feed joins from two. -/
structure Joined (a b : Text) : Prop where
  /-- Behind the line feed a position is the one in the second text, below the lines of the first. -/
  positions_behind : ∀ n ≤ b.length, ∃ p, positionAt b n = .ok p ∧
    positionAt (a ++ '\n' :: b) (a.length + 1 + n) = .ok ⟨countLines a + p.line, p.column⟩
  /-- A position below those lines has an offset if it has one in the second text, which is then so much larger. -/
  offsets_behind : ∀ line column n, 1 ≤ line →
    (offsetAt (a ++ '\n' :: b) ⟨countLines a + line, column⟩ = .ok n ↔
      ∃ m, offsetAt b ⟨line, column⟩ = .ok m ∧ n = a.length + 1 + m)
  positions_before : a.getLast? ≠ some '\r' → ∀ n ≤ a.length, ∃ p, positionAt a n = .ok p ∧
    positionAt (a ++ '\n' :: b) n = .ok p
  offsets_before : a.getLast? ≠ some '\r' → ∀ line column, line ≤ countLines a →
    offsetAt (a ++ '\n' :: b) ⟨line, column⟩ = offsetAt a ⟨line, column⟩

/-- Coordinates are local to lines, on both sides of every line feed. -/
theorem coordinates_joined (a b : Text) : Joined a b where
  positions_behind := by
    intro n hn
    obtain ⟨p, hp⟩ := exists_positionFrom .origin hn
    refine ⟨p, positionAt_eq_ok_iff.2 hp, positionAt_eq_ok_iff.2 ?_⟩
    rw [positionFrom_behind, hp]
    rfl
  offsets_behind := by
    intro line column n hline
    have hdistance : distance? ⟨countLines a + line, column⟩ .origin (a ++ '\n' :: b) =
        (distance? ⟨line, column⟩ .origin b).map (· + (a.length + 1)) := distance?_behind a b ⟨line, column⟩ hline
    simp only [offsetAt_eq_ok_iff, hdistance, Option.map_eq_some_iff]
    constructor
    · rintro ⟨-, hcolumn, m, hm, rfl⟩
      exact ⟨m, ⟨hline, hcolumn, hm⟩, Nat.add_comm ..⟩
    · rintro ⟨m, ⟨-, hcolumn, hm⟩, rfl⟩
      exact ⟨Nat.le_add_left_of_le hline, hcolumn, m, hm, Nat.add_comm ..⟩
  positions_before := by
    intro hend n hn
    obtain ⟨p, hp⟩ := exists_positionFrom .origin hn
    refine ⟨p, positionAt_eq_ok_iff.2 hp, positionAt_eq_ok_iff.2 ?_⟩
    rw [positionFrom_before b hend hn, hp]
  offsets_before := by
    intro hend line column hline
    have hlast : line ≤ Position.origin.line + a.count '\n' := by rwa [Position.origin, Nat.add_comm]
    rw [offsetAt, offsetAt, distance?_before b hend hlast]

/-- Behind a carriage return the line feed takes the column that the end of the text had. -/
example : positionAt ['\r'] 1 = .ok ⟨1, 2⟩ ∧ positionAt ['\r', '\n', 'b'] 1 = .ok ⟨1, 1⟩ := ⟨rfl, rfl⟩

end LintFixture.Grid
