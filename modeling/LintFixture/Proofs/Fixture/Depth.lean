import LintFixture.Proofs.Fixture.Dedent
import LintFixture.Proofs.Traversal

/-!
# Extraction and depth

How far in an element stands shows as blanks in front of the lines of its code.
They are part of the margin of the code, so extraction takes them off again
(`extract_nest`).
-/

namespace LintFixture.Fixture.Snippet

open Text

variable {p q row deeper : Text} {xs ys zs : List Text}

/-- The text with `q` in front of its first line and `p` in front of every later one. -/
def nest (q p t : Text) : Text := q ++ t.flatMap fun c => if c = '\n' then '\n' :: p else [c]

/-! ## Deeper lines -/

/-- The line `deeper` is `row` with `p` in front, but for blank lines, which only are blank both. -/
structure IsDeeper (p row deeper : Text) : Prop where
  blank : allBlank deeper = allBlank row
  content : allBlank row = false → deeper = p ++ row

theorem isDeeper_append (hp : allBlank p = true) (row : Text) : IsDeeper p row (p ++ row) :=
  ⟨by simp [hp], fun _ => rfl⟩

/-- The carriage return at the end of an empty line may come from `p`. -/
theorem isDeeper_dropReturn (hp : allBlank p = true) (row : Text) :
    IsDeeper p (dropReturn row) (dropReturn (p ++ row)) := by
  refine ⟨by simp [allBlank_dropReturn, hp], fun h => ?_⟩
  apply dropReturn_append
  rintro rfl
  cases h

theorem takeWhile_append_isBlank (hp : allBlank p = true) (row : Text) :
    (p ++ row).takeWhile isBlank = p ++ row.takeWhile isBlank :=
  List.takeWhile_append_of_pos (allBlank_iff.1 hp)

/-! ## The deeper margin -/

theorem commonStart_append (p a b : Text) : commonStart (p ++ a) (p ++ b) = p ++ commonStart a b := by
  induction p with
  | nil => rfl
  | cons c p ih => simp [commonStart, ih]

theorem foldl_commonStart_append (p first : Text) (others : List Text) :
    (others.map (p ++ ·)).foldl commonStart (p ++ first) = p ++ others.foldl commonStart first := by
  induction others generalizing first with
  | nil => rfl
  | cons other others ih => rw [List.map_cons, List.foldl_cons, List.foldl_cons, commonStart_append, ih]

theorem filter_of_isDeeper (h : List.Forall₂ (IsDeeper p) xs ys) :
    ys.filter (!allBlank ·) = (xs.filter (!allBlank ·)).map (p ++ ·) := by
  induction h with
  | nil => rfl
  | @cons row deeper xs ys hrow _ ih =>
    cases hb : allBlank row with
    | true => rw [List.filter_cons_of_neg (by simp [hrow.blank, hb]), List.filter_cons_of_neg (by simp [hb]), ih]
    | false =>
      rw [List.filter_cons_of_pos (by simp [hrow.blank, hb]), List.filter_cons_of_pos (by simp [hb]), ih,
        List.map_cons, hrow.content hb]

/-- Lines with content share what they shared before, behind `p`. -/
theorem indentOf_of_isDeeper (hp : allBlank p = true) (h : List.Forall₂ (IsDeeper p) xs ys)
    (hcontent : ∃ row ∈ xs, allBlank row = false) : indentOf ys = p ++ indentOf xs := by
  have hne : xs.filter (!allBlank ·) ≠ [] := by
    obtain ⟨row, hrow, hb⟩ := hcontent
    exact List.ne_nil_of_mem (List.mem_filter.2 ⟨hrow, by simp [hb]⟩)
  obtain ⟨first, others, hf⟩ := List.exists_cons_of_ne_nil hne
  have hmap : (others.map (p ++ ·)).map (·.takeWhile isBlank) = (others.map (·.takeWhile isBlank)).map (p ++ ·) := by
    simp [takeWhile_append_isBlank hp]
  simp only [indentOf, filter_of_isDeeper h, hf, List.map_cons, takeWhile_append_isBlank hp, hmap,
    foldl_commonStart_append]

theorem dedentRow_of_isDeeper {width : Nat} (h : IsDeeper p row deeper) :
    dedentRow (p.length + width) deeper = dedentRow width row := by
  unfold dedentRow
  rw [h.blank]
  split
  · rfl
  · next hb => rw [h.content (by simpa using hb), ← List.drop_drop, List.drop_left]

/-- Deeper lines are the same without their margin. -/
theorem dedent_of_isDeeper (hp : allBlank p = true) (h : List.Forall₂ (IsDeeper p) xs ys) : dedent ys = dedent xs := by
  rw [dedent_eq, dedent_eq, eq_comm, map_eq_map_iff_forall₂]
  by_cases hcontent : ∃ row ∈ xs, allBlank row = false
  · rw [indentOf_of_isDeeper hp h hcontent, List.length_append]
    exact h.imp fun row deeper hrow => (dedentRow_of_isDeeper hrow).symm
  · simp only [not_exists, not_and, Bool.not_eq_false] at hcontent
    refine ((List.forall₂_and_left xs ys).2 ⟨hcontent, h⟩).imp fun row deeper hrow => ?_
    rw [dedentRow, dedentRow, if_pos hrow.1, if_pos (hrow.2.blank.trans hrow.1)]

theorem dropWhile_of_isDeeper (h : List.Forall₂ (IsDeeper p) xs ys) :
    List.Forall₂ (IsDeeper p) (xs.dropWhile allBlank) (ys.dropWhile allBlank) := by
  induction h with
  | nil => exact .nil
  | @cons row deeper xs ys hrow hrest ih =>
    cases hb : allBlank row with
    | true => simpa [hrow.blank, hb] using ih
    | false =>
      rw [List.dropWhile_cons_of_neg (by simp [hb]), List.dropWhile_cons_of_neg (by simp [hrow.blank, hb])]
      exact .cons hrow hrest

/-- The rows of the code are the same, however deep it stands. -/
theorem codeRows_of_isDeeper (hq : allBlank q = true) (hp : allBlank p = true) (hrow : IsDeeper q row deeper)
    (h : List.Forall₂ (IsDeeper p) xs ys) : codeRows (deeper :: ys) = codeRows (row :: xs) := by
  rw [codeRows, codeRows, hrow.blank]
  split
  · exact dedent_of_isDeeper hp (dropWhile_of_isDeeper h)
  · next hb => rw [hrow.content (by simpa using hb), trimStart_append_of_allBlank hq, dedent_of_isDeeper hp h]

/-! ## Texts -/

theorem flatMap_of_not_mem (p : Text) (h : '\n' ∉ row) :
    (row.flatMap fun c => if c = '\n' then '\n' :: p else [c]) = row := by
  induction row with
  | nil => rfl
  | cons c row ih =>
    rw [List.mem_cons, not_or] at h
    rw [List.flatMap_cons, if_neg (Ne.symm h.1), ih h.2, List.singleton_append]

theorem append_join_cons (p row : Text) (xs : List Text) :
    p ++ join ['\n'] (row :: xs) = join ['\n'] ((p ++ row) :: xs) := by
  by_cases hn : xs = []
  · simp [hn]
  · rw [join_cons_of_ne_nil hn, join_cons_of_ne_nil hn, List.append_assoc]

theorem flatMap_join (p : Text) (h : ∀ x ∈ row :: xs, '\n' ∉ x) :
    ((join ['\n'] (row :: xs)).flatMap fun c => if c = '\n' then '\n' :: p else [c]) =
      join ['\n'] (row :: xs.map (p ++ ·)) := by
  induction xs generalizing row with
  | nil => simpa using flatMap_of_not_mem p (h row List.mem_cons_self)
  | cons other xs ih =>
    rw [List.forall_mem_cons] at h
    rw [join_cons_of_ne_nil (List.cons_ne_nil other xs), List.flatMap_append, List.flatMap_cons,
      flatMap_of_not_mem p h.1, ih h.2, if_pos rfl, List.map_cons, join_cons_of_ne_nil (List.cons_ne_nil _ _),
      ← append_join_cons, List.cons_append]

/-- Nesting puts its blanks in front of the rows. -/
theorem rows_nest (hq : '\n' ∉ q) (hp : '\n' ∉ p) {t : Text} (h : rows t = row :: xs) :
    rows (nest q p t) = (q ++ row) :: xs.map (p ++ ·) := by
  have hmem : ∀ x ∈ row :: xs, '\n' ∉ x := fun x hx => not_mem_of_mem_rows (h ▸ hx)
  have hnest : nest q p t = join ['\n'] ((q ++ row) :: xs.map (p ++ ·)) := by
    rw [nest, ← join_rows t, h, flatMap_join p hmem, append_join_cons]
  rw [hnest, rows_join _ (List.cons_ne_nil _ _)]
  rw [List.forall_mem_cons] at hmem ⊢
  constructor
  · simp [hq, hmem.1]
  · intro x hx
    obtain ⟨x, hmem', rfl⟩ := List.mem_map.1 hx
    simp [hp, hmem.2 x hmem']

/-- The end of a text is no line if it is empty, and one line otherwise. -/
theorem lines_end_cases (h : '\n' ∉ row) : (row = [] ∧ lines row = []) ∨ (row ≠ [] ∧ lines row = [row]) := by
  by_cases hn : row = []
  · exact .inl ⟨hn, by rw [hn]; rfl⟩
  · exact .inr ⟨hn, lines_of_not_mem h hn⟩

theorem allBlank_of_mem_lines (h : '\n' ∉ p) (hp : allBlank p = true) : ∀ row ∈ lines p, allBlank row = true := by
  rcases lines_end_cases h with ⟨-, hl⟩ | ⟨-, hl⟩ <;> simp [hl, hp]

theorem forall₂_isDeeper_dropReturn (hp : allBlank p = true) (ys : List Text) :
    List.Forall₂ (IsDeeper p) (ys.map dropReturn) ((ys.map (p ++ ·)).map dropReturn) := by
  rw [List.map_map, List.forall₂_map_left_iff, List.forall₂_map_right_iff, List.forall₂_same]
  exact fun row _ => isDeeper_dropReturn hp row

/-- Terminated lines and one more line give the same code when they stand deeper. -/
theorem codeRows_nested (hq : allBlank q = true) (hp : allBlank p = true) (row : Text) (xs : List Text)
    (h : List.Forall₂ (IsDeeper p) ys zs) :
    codeRows (((q ++ row) :: xs.map (p ++ ·)).map dropReturn ++ zs) = codeRows ((row :: xs).map dropReturn ++ ys) :=
  codeRows_of_isDeeper hq hp (isDeeper_dropReturn hq row) (List.rel_append (forall₂_isDeeper_dropReturn hp xs) h)

theorem extract_nest_unterminated (hq : allBlank q = true) (hp : allBlank p = true) (hq' : '\n' ∉ q) (hp' : '\n' ∉ p)
    (t : Text) : extract (nest q p t) = extract t := by
  obtain ⟨front, last, hrows⟩ := exists_rows_eq_append t
  have hlast : '\n' ∉ last := not_mem_of_mem_rows (t := t) (by simp [hrows])
  rw [extract_eq, extract_eq, lines_eq_of_rows hrows]
  cases front with
  | nil =>
    have hnest : rows (nest q p t) = [] ++ [q ++ last] := rows_nest hq' hp' hrows
    rw [lines_eq_of_rows hnest, List.map_nil, List.nil_append, List.nil_append]
    rcases lines_end_cases hlast with ⟨rfl, hl⟩ | ⟨hne, hl⟩
    · rw [List.append_nil, codeRows_of_blank (allBlank_of_mem_lines hq' hq), hl]
      rfl
    · rw [hl, lines_of_not_mem (by simp [hq', hlast]) (List.append_ne_nil_of_right_ne_nil q hne),
        codeRows_of_isDeeper hq hp (isDeeper_append hq last) .nil]
  | cons row xs =>
    have hnest : rows (nest q p t) = ((q ++ row) :: xs.map (p ++ ·)) ++ [p ++ last] := by
      simpa using rows_nest hq' hp' hrows
    rw [lines_eq_of_rows hnest]
    rcases lines_end_cases hlast with ⟨rfl, hl⟩ | ⟨hne, hl⟩
    -- the blanks in front of an empty end make a blank line of it
    · rw [List.append_nil, trimEnd_join_codeRows _ (allBlank_of_mem_lines hp' hp), hl]
      simpa using congrArg (fun rows => trimEnd (join ['\n'] rows)) (codeRows_nested hq hp row xs .nil)
    · rw [hl, lines_of_not_mem (by simp [hp', hlast]) (List.append_ne_nil_of_right_ne_nil p hne),
        codeRows_nested hq hp row xs (.cons (isDeeper_append hp last) .nil)]

theorem lines_append_lineFeed (t : Text) : lines (t ++ ['\n']) = (rows t).map dropReturn := by
  have hmem : ∀ row ∈ rows t, '\n' ∉ row := fun row => not_mem_of_mem_rows
  conv_lhs => rw [← join_rows t]
  rw [lines_join_append hmem (rows_ne_nil t)]
  simp [lines]

/-- The code does not depend on how deep its element stands. A final line feed opens no line, so nothing
needs to stand behind it. -/
theorem extract_nest (hq : allBlank q = true) (hp : allBlank p = true) (hq' : '\n' ∉ q) (hp' : '\n' ∉ p) (t : Text) :
    extract (nest q p t) = extract t ∧ extract (nest q p t ++ ['\n']) = extract (t ++ ['\n']) := by
  refine ⟨extract_nest_unterminated hq hp hq' hp' t, ?_⟩
  obtain ⟨row, xs, hrows⟩ := List.exists_cons_of_ne_nil (rows_ne_nil t)
  have hcode := codeRows_nested hq hp row xs .nil
  rw [List.append_nil, List.append_nil] at hcode
  rw [extract_eq, extract_eq, lines_append_lineFeed, lines_append_lineFeed, hrows, rows_nest hq' hp' hrows, hcode]

/-- The blanks in front of the empty line end in a carriage return, which then belongs to its terminator. -/
theorem extract_nest_carriage_return :
    (allBlank ['\t'] = true ∧ allBlank ['\u2003', '\r'] = true ∧ '\n' ∉ ['\t'] ∧ '\n' ∉ ['\u2003', '\r']) ∧
      nest ['\t'] ['\u2003', '\r'] ['a', '\n', '\n', ' ', 'b'] =
        ['\t', 'a', '\n', '\u2003', '\r', '\n', '\u2003', '\r', ' ', 'b'] ∧
      extract ['\t', 'a', '\n', '\u2003', '\r', '\n', '\u2003', '\r', ' ', 'b'] = extract ['a', '\n', '\n', ' ', 'b'] ∧
      extract ['a', '\n', '\n', ' ', 'b'] = ['a', '\n', '\n', 'b'] := by
  have hnest := (extract_nest (q := ['\t']) (p := ['\u2003', '\r']) (by decide) (by decide) (by decide) (by decide)
    ['a', '\n', '\n', ' ', 'b']).1
  exact ⟨⟨by decide, by decide, by decide, by decide⟩, by decide, hnest, by decide⟩

end LintFixture.Fixture.Snippet
