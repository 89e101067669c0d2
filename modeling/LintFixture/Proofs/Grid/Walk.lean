import LintFixture.Grid.Coordinates
import Mathlib.Order.Basic

/-!
# The walk over a text

`positionFrom` walks a number of characters, `distance?` walks up to a position.
The cursor never moves back, and the two walks undo each other: the offset of the
position of an offset is that offset again, except that both characters of a
carriage return and line feed pair lead to the first of them
(`offsetAt_positionAt`).
-/

namespace LintFixture.Grid

/-! ## The cursor moves on -/

theorem tabStopAfter_gt (column : Nat) : column < tabStopAfter column := by
  unfold tabStopAfter tabWidth
  omega

theorem le_columnPast (column : Nat) (c : Char) (rest : Text) : column ≤ columnPast column c rest := by
  have := tabStopAfter_gt column
  unfold columnPast
  split
  · omega
  · split <;> omega

/-- Only the carriage return of a pair takes no room. -/
theorem lt_columnPast (column : Nat) {c : Char} {rest : Text} (h : startsBreak c rest = false) :
    column < columnPast column c rest := by
  have := tabStopAfter_gt column
  have hc : ¬ (c = '\r' ∧ rest.head? = some '\n') := by
    rintro ⟨rfl, hr⟩
    simp [startsBreak, hr] at h
  unfold columnPast
  rw [if_neg hc]
  split <;> omega

namespace Position

theorem le_iff {p q : Position} : p ≤ q ↔ p.line < q.line ∨ (p.line = q.line ∧ p.column ≤ q.column) :=
  Iff.rfl

theorem le_trans {p q r : Position} (h : p ≤ q) (h' : q ≤ r) : p ≤ r := by
  rw [le_iff] at *
  omega

theorem lt_iff {p q : Position} : p < q ↔ p.line < q.line ∨ (p.line = q.line ∧ p.column < q.column) :=
  Iff.rfl

instance : Std.IsLinearOrder Position where
  le_refl := le_refl
  le_trans _ _ _ := le_trans
  le_antisymm p q h h' := by
    rw [le_iff] at h h'
    cases p
    cases q
    grind
  le_total p q := by
    rw [le_iff, le_iff]
    omega

instance : Std.LawfulOrderLT Position where
  lt_iff p q := by
    rw [lt_iff, le_iff, le_iff]
    omega

theorem le_advance (p : Position) (c : Char) (rest : Text) : p ≤ p.advance c rest := by
  have := le_columnPast p.column c rest
  unfold advance
  rw [le_iff]
  split
  · simp
  · exact .inr ⟨rfl, this⟩

theorem line_advance_of_ne (p : Position) {c : Char} (rest : Text) (h : c ≠ '\n') :
    (p.advance c rest).line = p.line := by
  simp [advance, h]

/-- A cursor passes a line for each line feed. -/
theorem line_advance_add_count (p : Position) (c : Char) (rest : Text) :
    (p.advance c rest).line + rest.count '\n' = p.line + (c :: rest).count '\n' := by
  by_cases hn : c = '\n'
  · subst hn
    rw [List.count_cons_self]
    simp only [advance, if_true]
    omega
  · rw [line_advance_of_ne p rest hn, List.count_cons_of_ne hn]

end Position

/-! ## A number of characters on -/

@[simp] theorem positionFrom_zero (p : Position) (t : Text) : positionFrom p t 0 = some p := by
  cases t <;> rfl

theorem le_of_positionFrom {p q : Position} {t : Text} {n : Nat} (h : positionFrom p t n = some q) : p ≤ q := by
  induction t generalizing p n with
  | nil =>
    cases n with
    | zero => exact Option.some.inj h ▸ Position.le_refl p
    | succ n => cases h
  | cons c rest ih =>
    cases n with
    | zero => exact Option.some.inj h ▸ Position.le_refl p
    | succ n => exact Position.le_trans (p.le_advance c rest) (ih h)

theorem positionFrom_eq_none_iff {p : Position} {t : Text} {n : Nat} :
    positionFrom p t n = none ↔ t.length < n := by
  induction t generalizing p n with
  | nil => cases n <;> simp [positionFrom]
  | cons c rest ih => cases n <;> simp [positionFrom, ih]

theorem exists_positionFrom (p : Position) {t : Text} {n : Nat} (h : n ≤ t.length) :
    ∃ q, positionFrom p t n = some q := by
  rw [← Option.ne_none_iff_exists', Ne, positionFrom_eq_none_iff]
  omega

theorem column_pos_of_positionFrom {p q : Position} {t : Text} {n : Nat} (h : positionFrom p t n = some q)
    (hp : 0 < p.column) : 0 < q.column := by
  induction t generalizing p n with
  | nil =>
    cases n with
    | zero => exact Option.some.inj h ▸ hp
    | succ n => cases h
  | cons c rest ih =>
    cases n with
    | zero => exact Option.some.inj h ▸ hp
    | succ n =>
      have := le_columnPast p.column c rest
      refine ih h ?_
      unfold Position.advance
      split
      · exact Nat.one_pos
      · exact Nat.lt_of_lt_of_le hp this

/-- One more character moves the cursor on over it. -/
theorem positionFrom_succ {p q : Position} {t rest : Text} {c : Char} {n : Nat}
    (h : positionFrom p t n = some q) (hc : t.drop n = c :: rest) :
    positionFrom p t (n + 1) = some (q.advance c rest) := by
  induction t generalizing p n with
  | nil => simp at hc
  | cons d t ih =>
    cases n with
    | zero =>
      obtain ⟨rfl, rfl⟩ := List.cons.inj hc
      rw [positionFrom, positionFrom_zero, ← Option.some.inj h]
    | succ n => exact ih h hc

theorem positionFrom_succ_of_getElem? {p q : Position} {t : Text} {c : Char} {n : Nat}
    (h : positionFrom p t n = some q) (hc : t[n]? = some c) :
    positionFrom p t (n + 1) = some (q.advance c (t.drop (n + 1))) := by
  obtain ⟨hn, rfl⟩ := List.getElem?_eq_some_iff.1 hc
  exact positionFrom_succ h (List.drop_eq_getElem_cons hn)

/-- The walk passes as many lines as line feeds, at most. -/
theorem line_positionFrom_le {p q : Position} {t : Text} {n : Nat} (h : positionFrom p t n = some q) :
    q.line ≤ p.line + t.count '\n' := by
  induction t generalizing p n with
  | nil =>
    cases n with
    | zero => simp [← Option.some.inj h]
    | succ n => cases h
  | cons c rest ih =>
    cases n with
    | zero => simp [← Option.some.inj h]
    | succ n =>
      have hq := ih h
      rwa [Position.line_advance_add_count] at hq

/-! ## Up to a position -/

theorem distance?_le_length {target p : Position} {t : Text} {n : Nat} (h : distance? target p t = some n) :
    n ≤ t.length := by
  induction t generalizing p n with
  | nil =>
    simp only [distance?] at h
    split at h <;> simp_all
  | cons c rest ih =>
    simp only [distance?] at h
    split at h
    · cases h
    · split at h
      · split at h
        · exact Option.some.inj h ▸ Nat.zero_le _
        · cases h
      · split at h
        · exact Option.some.inj h ▸ Nat.zero_le _
        · obtain ⟨m, hm, rfl⟩ := Option.map_eq_some_iff.1 h
          exact Nat.succ_le_succ (ih hm)

/-- A walk that does not end at its first character goes on past every column of it. -/
theorem distance?_cons_succ {target p : Position} {c : Char} {rest : Text} {n : Nat} :
    distance? target p (c :: rest) = some (n + 1) ↔
      p.line ≤ target.line ∧
      (p.line = target.line → startsBreak c rest = false ∧ columnPast p.column c rest ≤ target.column) ∧
      distance? target (p.advance c rest) rest = some n := by
  simp only [distance?]
  split
  · constructor
    · intro h; cases h
    · rintro ⟨h, -, -⟩; omega
  · next hl =>
    split
    · next hb =>
      constructor
      · intro h
        split at h <;> cases h
      · rintro ⟨-, h, -⟩
        rw [(h hb.1).1] at hb
        cases hb.2
    · next hb =>
      split
      · next hc =>
        constructor
        · intro h; cases h
        · rintro ⟨-, h, -⟩
          have := (h hc.1).2
          omega
      · next hc =>
        simp only [Option.map_eq_some_iff, Nat.add_right_cancel_iff, exists_eq_right]
        constructor
        · intro h
          refine ⟨by omega, fun he => ⟨?_, ?_⟩, h⟩
          · simpa [he] using hb
          · simpa [he] using hc
        · rintro ⟨-, -, h⟩
          exact h

/-- Later positions are reached later. -/
theorem distance?_mono {a b p : Position} {t : Text} {n m : Nat} (hab : a ≤ b)
    (ha : distance? a p t = some n) (hb : distance? b p t = some m) : n ≤ m := by
  induction t generalizing p n m with
  | nil =>
    have := distance?_le_length ha
    simp_all
  | cons c rest ih =>
    cases n with
    | zero => exact Nat.zero_le _
    | succ n =>
      obtain ⟨hl, hc, ha⟩ := distance?_cons_succ.1 ha
      rw [Position.le_iff] at hab
      cases m with
      | succ m => exact Nat.succ_le_succ (ih ha (distance?_cons_succ.1 hb).2.2)
      | zero =>
        -- the walk to `b` cannot stop at a character that the walk to `a` has passed
        simp only [distance?] at hb
        rw [if_neg (by omega)] at hb
        by_cases he : p.line = a.line
        · obtain ⟨hs, hcol⟩ := hc he
          rw [if_neg (by simp [hs]), if_neg (by omega)] at hb
          simp at hb
        · rw [if_neg (by omega), if_neg (by omega)] at hb
          simp at hb

/-! ## There and back -/

/-- Whether `offset` is the place of a line feed that ends a pair with a carriage return. -/
def endsPair (t : Text) (offset : Nat) : Bool :=
  0 < offset && t[offset - 1]? == some '\r' && t[offset]? == some '\n'

theorem endsPair_zero (t : Text) : endsPair t 0 = false := rfl

theorem endsPair_cons_succ_succ (c : Char) (t : Text) (n : Nat) :
    endsPair (c :: t) (n + 2) = endsPair t (n + 1) := by
  simp [endsPair]

theorem endsPair_cons_one (c : Char) (t : Text) :
    endsPair (c :: t) 1 = (c == '\r' && t.head? == some '\n') := by
  simp [endsPair, List.head?_eq_getElem?]

/-- A walk that stays on its line passes no terminator, except for a first half of a pair. -/
theorem startsBreak_of_positionFrom {p q : Position} {c : Char} {rest : Text} {n : Nat}
    (h : positionFrom p (c :: rest) (n + 1) = some q) (hl : p.line = q.line)
    (hn : n = 0 → endsPair (c :: rest) 1 = false) : startsBreak c rest = false := by
  have hq : p.advance c rest ≤ q := le_of_positionFrom h
  rw [Position.le_iff] at hq
  by_cases hc : c = '\n'
  · subst hc
    simp only [Position.advance, if_true] at hq
    omega
  · cases n with
    | zero => simpa [startsBreak, hc, endsPair_cons_one] using hn rfl
    | succ n =>
      by_contra hb
      simp only [startsBreak, Bool.or_eq_true, beq_iff_eq, hc, false_or, Bool.and_eq_true,
        Bool.not_eq_false] at hb
      obtain ⟨rfl, hr⟩ := hb
      obtain ⟨rest, rfl⟩ := List.head?_eq_some_iff.1 hr
      -- the pair is passed whole, so the line feed has opened the next line
      have hq : (p.advance '\r' ('\n' :: rest)).advance '\n' rest ≤ q := le_of_positionFrom h
      simp only [Position.advance, if_true, Char.reduceEq, if_false, Position.le_iff] at hq
      omega

/-- The walk to where a walk of `n` characters ends takes `n` characters, or one less. -/
theorem distance?_positionFrom {p q : Position} {t : Text} {n : Nat} (h : positionFrom p t n = some q) :
    distance? q p t = some (if endsPair t n then n - 1 else n) := by
  induction t generalizing p n with
  | nil =>
    cases n with
    | zero => simp [distance?, Option.some.inj h, endsPair_zero]
    | succ n => cases h
  | cons c rest ih =>
    cases n with
    | zero =>
      obtain rfl := Option.some.inj h
      rw [endsPair_zero, distance?, if_neg (Nat.lt_irrefl _)]
      split
      · simp
      · next hb =>
        have hb' : startsBreak c rest = false := by simpa using hb
        simp [lt_columnPast p.column hb']
    | succ n =>
      by_cases hp : n = 0 ∧ endsPair (c :: rest) 1 = true
      · -- the cursor does not move over the carriage return of a pair
        obtain ⟨rfl, he⟩ := hp
        obtain rfl : p.advance c rest = q := by simpa [positionFrom] using h
        rw [he]
        simp only [endsPair_cons_one, Bool.and_eq_true, beq_iff_eq] at he
        obtain ⟨rfl, hr⟩ := he
        simp [distance?, Position.advance, columnPast, startsBreak, hr]
      · have hle : p.advance c rest ≤ q := le_of_positionFrom h
        have hpq : p ≤ q := Position.le_trans (p.le_advance c rest) hle
        rw [Position.le_iff] at hle hpq
        have hnext : distance? q p (c :: rest) = some ((if endsPair rest n then n - 1 else n) + 1) := by
          refine distance?_cons_succ.2 ⟨by omega, fun hl => ?_, ih h⟩
          have hb := startsBreak_of_positionFrom h hl (by simpa using hp)
          have hc : c ≠ '\n' := by
            rintro rfl
            simp [startsBreak] at hb
          refine ⟨hb, ?_⟩
          rw [Position.line_advance_of_ne p rest hc] at hle
          simp only [Position.advance, hc, if_false] at hle
          omega
        rw [hnext]
        cases n with
        | zero => simp [endsPair_zero, show endsPair (c :: rest) 1 = false by simpa using hp]
        | succ n =>
          rw [endsPair_cons_succ_succ]
          split <;> simp

/-! ## Main statement -/

/-- An offset up to the end has a position, and that position leads back to it; the line feed of
a pair leads to the carriage return. Beyond the end there is no position. -/
theorem offsetAt_positionAt (t : Text) (offset : Nat) :
    (offset ≤ t.length → ∃ p, positionAt t offset = .ok p ∧
      offsetAt t p = .ok (if endsPair t offset then offset - 1 else offset)) ∧
    (t.length < offset → positionAt t offset = .error (.offsetBeyond offset t.length)) := by
  constructor
  · intro h
    obtain ⟨p, hp⟩ := exists_positionFrom .origin h
    have hle : Position.origin ≤ p := le_of_positionFrom hp
    have hcol := column_pos_of_positionFrom hp Nat.one_pos
    have hpos : ¬ (p.line = 0 ∨ p.column = 0) := by
      simp only [Position.le_iff, Position.origin] at hle
      omega
    exact ⟨p, by simp [positionAt, hp], by simp [offsetAt, hpos, distance?_positionFrom hp]⟩
  · intro h
    simp [positionAt, positionFrom_eq_none_iff.2 h]

theorem offsetAt_positionAt_in_pair :
    (3 ≤ ['a', '\t', '\r', '\n', 'b'].length ∧ ∃ p, positionAt ['a', '\t', '\r', '\n', 'b'] 3 = .ok p ∧
      offsetAt ['a', '\t', '\r', '\n', 'b'] p = .ok 2) ∧
    (['a', '\t', '\r', '\n', 'b'].length < 6 ∧
      positionAt ['a', '\t', '\r', '\n', 'b'] 6 = .error (.offsetBeyond 6 5)) := by
  obtain ⟨p, hp, ho⟩ := (offsetAt_positionAt ['a', '\t', '\r', '\n', 'b'] 3).1 (by decide)
  exact ⟨⟨by decide, p, hp, ho⟩, by decide, (offsetAt_positionAt _ 6).2 (by decide)⟩

end LintFixture.Grid
