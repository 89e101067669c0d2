import LintFixture.Text.Lines
import Mathlib.Data.List.Basic

/-!
# Rows and lines

The rows of a text are what stands between its line feeds. `Text.lines` reads the
rows without the carriage return at the end of each, so it gives back the rows of
a text that holds no carriage return and line feed pair.
-/

namespace LintFixture.Text

variable {row t : Text} {xs ys : List Text}

/-! ## Rows -/

/-- What stands between the line feeds of a text. -/
def rows (t : Text) : List Text := t.splitOn '\n'

theorem rows_ne_nil (t : Text) : rows t ≠ [] := List.splitOn_ne_nil _ _

@[simp] theorem join_rows (t : Text) : join ['\n'] (rows t) = t := List.intercalate_splitOn '\n'

theorem rows_join (h : ∀ row ∈ xs, '\n' ∉ row) (hne : xs ≠ []) : rows (join ['\n'] xs) = xs :=
  List.splitOn_intercalate '\n' h hne

theorem not_mem_of_mem_rows (h : row ∈ rows t) : '\n' ∉ row := by
  induction t generalizing row with
  | nil => simp_all [rows]
  | cons c t ih =>
    rw [rows, List.splitOn_cons_eq_if_modifyHead] at h
    obtain ⟨first, others, hs⟩ := List.exists_cons_of_ne_nil (rows_ne_nil t)
    rw [rows] at hs
    rw [rows, hs] at ih
    rw [hs] at h
    split at h
    · rcases List.mem_cons.1 h with rfl | h
      · simp
      · exact ih h
    · next hc =>
      rw [List.modifyHead_cons] at h
      rcases List.mem_cons.1 h with rfl | h
      · rw [List.mem_cons, not_or]
        exact ⟨fun he => hc (beq_iff_eq.2 he.symm), ih List.mem_cons_self⟩
      · exact ih (List.mem_cons_of_mem _ h)

@[simp] theorem join_singleton (row : Text) : join ['\n'] [row] = row := List.intercalate_singleton

theorem join_cons_of_ne_nil (h : ys ≠ []) : join ['\n'] (row :: ys) = row ++ '\n' :: join ['\n'] ys := by
  simp [join, List.intercalate_cons_of_ne_nil h]

theorem join_append (h : xs ≠ []) (h' : ys ≠ []) :
    join ['\n'] (xs ++ ys) = join ['\n'] xs ++ '\n' :: join ['\n'] ys := by
  induction xs with
  | nil => exact absurd rfl h
  | cons row xs ih =>
    by_cases hn : xs = []
    · subst hn
      rw [List.singleton_append, join_cons_of_ne_nil h', join_singleton]
    · rw [List.cons_append, join_cons_of_ne_nil (List.append_ne_nil_of_left_ne_nil hn ys), ih hn,
        join_cons_of_ne_nil hn, List.append_assoc, List.cons_append]

/-- What stands before the last row does not depend on it. -/
theorem exists_join_concat (xs : List Text) : ∃ front, ∀ row, join ['\n'] (xs ++ [row]) = front ++ row := by
  by_cases hn : xs = []
  · exact ⟨[], fun row => by simp [hn]⟩
  · exact ⟨join ['\n'] xs ++ ['\n'], fun row => by
      rw [join_append hn (List.cons_ne_nil row []), join_singleton, List.append_assoc, List.singleton_append]⟩

theorem getLast?_join_append (h : row ≠ []) : (join ['\n'] (xs ++ [row])).getLast? = row.getLast? := by
  obtain ⟨front, hf⟩ := exists_join_concat xs
  rw [hf, List.getLast?_append_of_ne_nil _ h]

theorem count_join (xs : List Text) (h : ∀ row ∈ xs, '\n' ∉ row) (hne : xs ≠ []) :
    (join ['\n'] xs).count '\n' + 1 = xs.length := by
  induction xs with
  | nil => exact absurd rfl hne
  | cons row xs ih =>
    rw [List.forall_mem_cons] at h
    by_cases hn : xs = []
    · simp [hn, List.count_eq_zero.2 h.1]
    · rw [join_cons_of_ne_nil hn, List.count_append, List.count_cons_self, List.count_eq_zero.2 h.1]
      simp [← ih h.2 hn, Nat.add_comm]

/-! ## The carriage return at the end of a row -/

/-- A row without one carriage return at its end. -/
def dropReturn (row : Text) : Text := if row.getLast? = some '\r' then row.dropLast else row

theorem dropReturn_append_return (row : Text) : dropReturn (row ++ ['\r']) = row := by
  simp [dropReturn]

theorem dropReturn_of_ne (h : row.getLast? ≠ some '\r') : dropReturn row = row := if_neg h

/-- A row either ends in a carriage return that is dropped, or stays. -/
theorem dropReturn_cases (row : Text) :
    (row = dropReturn row ++ ['\r']) ∨ (row.getLast? ≠ some '\r' ∧ dropReturn row = row) := by
  by_cases h : row.getLast? = some '\r'
  · obtain ⟨front, rfl⟩ := List.getLast?_eq_some_iff.1 h
    exact .inl (by rw [dropReturn_append_return])
  · exact .inr ⟨h, dropReturn_of_ne h⟩

theorem dropReturn_append (s : Text) (h : row ≠ []) : dropReturn (s ++ row) = s ++ dropReturn row := by
  rcases dropReturn_cases row with hr | ⟨hr, hr'⟩
  · conv_lhs => rw [hr, ← List.append_assoc]
    rw [dropReturn_append_return]
  · rw [hr', dropReturn_of_ne]
    rwa [List.getLast?_append_of_ne_nil _ h]

theorem map_dropReturn_of_ne (h : ∀ row ∈ xs, row.getLast? ≠ some '\r') : xs.map dropReturn = xs := by
  conv_rhs => rw [← List.map_id xs]
  exact List.map_congr_left fun row hrow => dropReturn_of_ne (h row hrow)

theorem length_dropReturn_le (row : Text) : (dropReturn row).length ≤ row.length := by
  rcases dropReturn_cases row with h | ⟨-, h⟩
  · conv_rhs => rw [h]
    simp
  · exact Nat.le_of_eq (congrArg List.length h)

theorem not_mem_dropReturn {c : Char} (h : c ∉ row) : c ∉ dropReturn row := by
  rcases dropReturn_cases row with hr | ⟨-, hr⟩
  · intro hc
    exact h (hr ▸ List.mem_append_left _ hc)
  · rwa [hr]

/-! ## Lines -/

/-- Reading a terminated row. -/
theorem lines_append (h : '\n' ∉ row) : lines (row ++ '\n' :: t) = dropReturn row :: lines t := by
  induction row with
  | nil => simp [lines, dropReturn]
  | cons c row ih =>
    rw [List.mem_cons, not_or] at h
    rw [List.cons_append, lines, if_neg (Ne.symm h.1), ih h.2]
    cases row with
    | nil => by_cases hc : c = '\r' <;> simp [hc, dropReturn]
    | cons d row =>
      have hd : d ≠ '\n' := (List.ne_of_not_mem_cons h.2).symm
      rw [if_neg (by simp [hd])]
      simp only [show c :: d :: row = [c] ++ d :: row from rfl, dropReturn_append [c] (List.cons_ne_nil d row)]
      rfl

/-- Reading the row that ends the text. -/
theorem lines_of_not_mem (h : '\n' ∉ row) (hne : row ≠ []) : lines row = [row] := by
  induction row with
  | nil => exact absurd rfl hne
  | cons c row ih =>
    rw [List.mem_cons, not_or] at h
    rw [lines, if_neg (Ne.symm h.1)]
    cases row with
    | nil => simp [lines]
    | cons d row =>
      have hd : d ≠ '\n' := (List.ne_of_not_mem_cons h.2).symm
      rw [if_neg (by simp [hd]), ih h.2 (List.cons_ne_nil d row)]

/-- Reading rows that are all terminated. -/
theorem lines_join_append (h : ∀ row ∈ xs, '\n' ∉ row) (hne : xs ≠ []) :
    lines (join ['\n'] xs ++ '\n' :: t) = xs.map dropReturn ++ lines t := by
  induction xs with
  | nil => exact absurd rfl hne
  | cons row xs ih =>
    rw [List.forall_mem_cons] at h
    by_cases hn : xs = []
    · subst hn
      simp [lines_append h.1]
    · rw [join_cons_of_ne_nil hn, List.append_assoc, List.cons_append, lines_append h.1, ih h.2 hn]
      simp

/-- The lines of a text are its rows without their carriage returns, and what ends the text. -/
theorem lines_eq_of_rows (h : rows t = xs ++ [row]) : lines t = xs.map dropReturn ++ lines row := by
  have hmem : ∀ x ∈ xs, '\n' ∉ x := fun x hx => not_mem_of_mem_rows (h ▸ List.mem_append_left _ hx)
  rw [← join_rows t, h]
  by_cases hn : xs = []
  · simp [hn]
  · rw [join_append hn (List.cons_ne_nil row []), join_singleton, lines_join_append hmem hn]

theorem exists_rows_eq_append (t : Text) : ∃ front last, rows t = front ++ [last] :=
  ⟨(rows t).dropLast, (rows t).getLast (rows_ne_nil t), (List.dropLast_append_getLast _).symm⟩

/-- Only a text that is empty or ends with a line feed has an empty last row. -/
theorem last_ne_nil_of_rows (h : rows t = xs ++ [row]) (hne : t ≠ []) (hlast : t.getLast? ≠ some '\n') : row ≠ [] := by
  rintro rfl
  rw [← join_rows t, h] at hne hlast
  by_cases hn : xs = []
  · exact hne (by rw [hn]; rfl)
  · rw [join_append hn (List.cons_ne_nil [] []), join_singleton] at hlast
    exact hlast (by simp)

theorem not_mem_of_mem_lines (h : row ∈ lines t) : '\n' ∉ row := by
  obtain ⟨front, last, hr⟩ := exists_rows_eq_append t
  have hmem : ∀ x ∈ front ++ [last], '\n' ∉ x := fun x hx => not_mem_of_mem_rows (hr ▸ hx)
  rw [lines_eq_of_rows hr] at h
  rcases List.mem_append.1 h with h | h
  · obtain ⟨x, hx, rfl⟩ := List.mem_map.1 h
    exact not_mem_dropReturn (hmem x (List.mem_append_left _ hx))
  · have hlast := hmem last (by simp)
    by_cases hn : last = []
    · simp [hn, lines] at h
    · rw [lines_of_not_mem hlast hn, List.mem_singleton] at h
      exact h ▸ hlast

/-! ## Pairs -/

/-- Some line feed of the text comes directly after a carriage return. -/
def HasPair (t : Text) : Prop := ['\r', '\n'] <:+: t

theorem hasPair_append (h : '\n' ∉ row) :
    HasPair (row ++ '\n' :: t) ↔ row.getLast? = some '\r' ∨ HasPair t := by
  unfold HasPair
  induction row with
  | nil => simp [List.infix_cons_iff]
  | cons c row ih =>
    rw [List.mem_cons, not_or] at h
    rw [List.cons_append, List.infix_cons_iff, ih h.2]
    cases row with
    | nil => simp [eq_comm]
    | cons d row =>
      simp [List.ne_of_not_mem_cons h.2]

theorem hasPair_join (h : ∀ row ∈ xs, '\n' ∉ row) :
    HasPair (join ['\n'] xs) ↔ ∃ row ∈ xs.dropLast, row.getLast? = some '\r' := by
  induction xs with
  | nil => simp [HasPair, join]
  | cons row xs ih =>
    rw [List.forall_mem_cons] at h
    by_cases hn : xs = []
    · subst hn
      simp only [join_singleton, List.dropLast_singleton, List.not_mem_nil, false_and, exists_false, iff_false]
      intro hp
      exact h.1 (hp.subset (by simp))
    · rw [join_cons_of_ne_nil hn, hasPair_append h.1, ih h.2, List.dropLast_cons_of_ne_nil hn]
      simp

/-- Where no line feed stands behind a carriage return or at the end, lines are rows. -/
theorem lines_eq_rows (hne : t ≠ []) (hlast : t.getLast? ≠ some '\n') (h : ¬ HasPair t) : lines t = rows t := by
  obtain ⟨front, last, hrows⟩ := exists_rows_eq_append t
  have hmem : ∀ row ∈ front ++ [last], '\n' ∉ row := fun row hrow => not_mem_of_mem_rows (hrows ▸ hrow)
  have hfront : front.map dropReturn = front := by
    apply map_dropReturn_of_ne
    intro row hrow hreturn
    rw [← join_rows t, hrows, hasPair_join hmem, List.dropLast_concat] at h
    exact h ⟨row, hrow, hreturn⟩
  rw [lines_eq_of_rows hrows, hfront, lines_of_not_mem (hmem last (by simp)) (last_ne_nil_of_rows hrows hne hlast),
    hrows]

end LintFixture.Text
