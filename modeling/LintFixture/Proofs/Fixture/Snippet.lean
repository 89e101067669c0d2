import LintFixture.Fixture.Snippet
import LintFixture.Proofs.Text.Lines
import LintFixture.Proofs.Text.Trim

/-!
# Indenting and extraction

Extraction leaves flush rows (`settled_extract`), and flush rows are what it gives
back of the block they were indented to. The rows of a block lose the carriage
returns at their ends, so a settled text comes back exactly when it holds no
carriage return and line feed pair (`extract_block_eq_self_iff`).
-/

namespace LintFixture.Fixture.Snippet

open Text

/-! ## The shared start -/

theorem prefix_commonStart_iff {p a b : Text} : p <+: commonStart a b ↔ p <+: a ∧ p <+: b := by
  induction a generalizing p b with
  | nil =>
    simp only [commonStart, List.prefix_nil, iff_self_and]
    rintro rfl
    exact List.nil_prefix
  | cons c a ih =>
    cases b with
    | nil =>
      simp only [commonStart, List.prefix_nil, iff_and_self]
      rintro rfl
      exact List.nil_prefix
    | cons d b =>
      cases p with
      | nil => simp
      | cons x p =>
        rw [commonStart]
        by_cases h : c = d
        · subst h
          rw [if_pos rfl, List.cons_prefix_cons, List.cons_prefix_cons, List.cons_prefix_cons, ih]
          tauto
        · rw [if_neg h, List.cons_prefix_cons, List.cons_prefix_cons]
          simp only [List.prefix_nil, reduceCtorEq, false_iff]
          rintro ⟨⟨rfl, -⟩, rfl, -⟩
          exact h rfl

theorem prefix_foldl_commonStart_iff {p first : Text} {others : List Text} :
    p <+: others.foldl commonStart first ↔ p <+: first ∧ ∀ o ∈ others, p <+: o := by
  induction others generalizing first with
  | nil => simp
  | cons o others ih => rw [List.foldl_cons, ih, prefix_commonStart_iff, List.forall_mem_cons, and_assoc]

/-- The indentation is the longest blank text that starts all rows with content. -/
theorem prefix_indentOf_iff {p : Text} {xs : List Text} (h : ∃ row ∈ xs, allBlank row = false) :
    p <+: indentOf xs ↔ ∀ row ∈ xs, allBlank row = false → p <+: row.takeWhile isBlank := by
  have hne : xs.filter (!allBlank ·) ≠ [] := by
    obtain ⟨row, hrow, hb⟩ := h
    exact List.ne_nil_of_mem (List.mem_filter.2 ⟨hrow, by simp [hb]⟩)
  obtain ⟨first, others, hf⟩ := List.exists_cons_of_ne_nil hne
  have hall : (∀ row ∈ xs, allBlank row = false → p <+: row.takeWhile isBlank) ↔
      ∀ row ∈ first :: others, p <+: row.takeWhile isBlank := by
    rw [← hf]
    simp [List.mem_filter]
  rw [hall]
  simp only [indentOf, hf, List.map_cons, prefix_foldl_commonStart_iff]
  simp

/-! ## Flush rows -/

/-- The first row has content, blank rows are empty, and no blank character starts all rows with
content. -/
structure Flush (xs : List Text) : Prop where
  first : ∀ row, xs.head? = some row → allBlank row = false
  blank : ∀ row ∈ xs, allBlank row = true → row = []
  indent : ∀ w, isBlank w = true → ∃ row ∈ xs, allBlank row = false ∧ row.head? ≠ some w

/-- A text of flush rows without blanks at its end. -/
structure Settled (s : Text) : Prop where
  flush : Flush (rows s)
  ends : trimEnd s = s

theorem Flush.exists_content {xs : List Text} (h : Flush xs) : ∃ row ∈ xs, allBlank row = false := by
  obtain ⟨row, hrow, hb, -⟩ := h.indent ' ' rfl
  exact ⟨row, hrow, hb⟩

/-- Flush rows with content share no blank start. -/
theorem Flush.eq_nil_of_prefix {p : Text} {xs : List Text} (h : Flush xs)
    (hp : ∀ row ∈ xs, allBlank row = false → p <+: row.takeWhile isBlank) : p = [] := by
  cases p with
  | nil => rfl
  | cons w p =>
    exfalso
    obtain ⟨row, hrow, hb⟩ := h.exists_content
    have hw : isBlank w = true := List.mem_takeWhile_imp ((hp row hrow hb).subset List.mem_cons_self)
    obtain ⟨row, hrow, hb, hne⟩ := h.indent w hw
    obtain ⟨tail, htail⟩ := (hp row hrow hb).trans (List.takeWhile_prefix isBlank)
    exact hne (by rw [← htail]; rfl)

/-! ## Indenting -/

/-- One row of a block. -/
def indentRow (row : Text) : Text := if allBlank row then [] else rowIndent ++ row

theorem indent_eq (s : Text) : indent s = join ['\n'] ((lines (trimEnd s)).map indentRow) := rfl

@[simp] theorem allBlank_rowIndent : allBlank rowIndent = true := rfl

@[simp] theorem allBlank_endIndent : allBlank endIndent = true := rfl

@[simp] theorem allBlank_indentRow (row : Text) : allBlank (indentRow row) = allBlank row := by
  unfold indentRow
  split <;> simp_all

theorem not_mem_indentRow {row : Text} (h : '\n' ∉ row) : '\n' ∉ indentRow row := by
  unfold indentRow
  split
  · simp
  · rw [List.mem_append, not_or]
    exact ⟨by decide, h⟩

/-- The indentation shows in front of the row's own blanks. -/
theorem takeWhile_indentRow {row : Text} (h : allBlank row = false) :
    (indentRow row).takeWhile isBlank = rowIndent ++ row.takeWhile isBlank := by
  rw [indentRow, if_neg (by simp [h]), List.takeWhile_append_of_pos (allBlank_iff.1 allBlank_rowIndent)]

/-- Flush rows share the indentation that they are given, and nothing more. -/
theorem indentOf_indent {xs : List Text} (h : Flush xs) :
    indentOf (xs.map indentRow ++ [endIndent]) = rowIndent := by
  have hiff : ∀ p, p <+: indentOf (xs.map indentRow ++ [endIndent]) ↔
      ∀ row ∈ xs, allBlank row = false → p <+: rowIndent ++ row.takeWhile isBlank := by
    intro p
    obtain ⟨row, hrow, hb⟩ := h.exists_content
    rw [prefix_indentOf_iff ⟨indentRow row, by simp [List.mem_map_of_mem hrow], by simp [hb]⟩]
    constructor
    · intro hp row hrow hb
      rw [← takeWhile_indentRow hb]
      exact hp _ (by simp [List.mem_map_of_mem hrow]) (by simp [hb])
    · intro hp row hrow hb
      rcases List.mem_append.1 hrow with hrow | hrow
      · obtain ⟨row, hmem, rfl⟩ := List.mem_map.1 hrow
        rw [allBlank_indentRow] at hb
        rw [takeWhile_indentRow hb]
        exact hp row hmem hb
      · simp_all
  obtain ⟨more, hmore⟩ := (hiff rowIndent).2 fun row _ _ => List.prefix_append _ _
  -- any more blanks would start every row with content
  have hnil : more = [] := h.eq_nil_of_prefix fun row hrow hb =>
    (List.prefix_append_right_inj rowIndent).1 ((hiff _).1 (hmore ▸ List.prefix_rfl) row hrow hb)
  rw [← hmore, hnil, List.append_nil]

/-- Extraction takes the indentation off again. -/
theorem dedent_indent {xs : List Text} (h : Flush xs) :
    dedent (xs.map indentRow ++ [endIndent]) = xs ++ [[]] := by
  unfold dedent
  rw [indentOf_indent h, List.map_append, List.map_map]
  congr 1
  conv_rhs => rw [← List.map_id xs]
  apply List.map_congr_left
  intro row hrow
  cases hb : allBlank row with
  | true => simp [indentRow, h.blank row hrow hb]
  | false => simp [hb, indentRow]

/-! ## The carriage returns at the ends of rows -/

theorem allBlank_dropReturn (row : Text) : allBlank (dropReturn row) = allBlank row := by
  rcases dropReturn_cases row with h | ⟨-, h⟩
  · conv_rhs => rw [h]
    simp [show isBlank '\r' = true from rfl]
  · rw [h]

theorem head?_dropReturn {row : Text} (h : allBlank row = false) : (dropReturn row).head? = row.head? := by
  have hne : dropReturn row ≠ [] := by
    intro hn
    rw [← allBlank_dropReturn, hn] at h
    cases h
  rcases dropReturn_cases row with hr | ⟨-, hr⟩
  · conv_rhs => rw [hr]
    rw [List.head?_append_of_ne_nil _ hne]
  · rw [hr]

theorem dropReturn_indentRow (row : Text) : dropReturn (indentRow row) = indentRow (dropReturn row) := by
  unfold indentRow
  rw [allBlank_dropReturn]
  split
  · rfl
  · next hb =>
    rw [dropReturn_append]
    rintro rfl
    exact hb rfl

theorem Flush.map_dropReturn {xs : List Text} (h : Flush xs) : Flush (xs.map dropReturn) where
  first row hrow := by
    rw [List.head?_map, Option.map_eq_some_iff] at hrow
    obtain ⟨row, hrow, rfl⟩ := hrow
    rw [allBlank_dropReturn, h.first row hrow]
  blank row hrow hb := by
    obtain ⟨row, hmem, rfl⟩ := List.mem_map.1 hrow
    rw [allBlank_dropReturn] at hb
    rw [h.blank row hmem hb]
    rfl
  indent w hw := by
    obtain ⟨row, hrow, hb, hne⟩ := h.indent w hw
    exact ⟨dropReturn row, List.mem_map_of_mem hrow, by rw [allBlank_dropReturn, hb],
      by rwa [head?_dropReturn hb]⟩

/-! ## Blocks -/

/-- The last row of a settled text ends in a character that is not blank. -/
theorem Settled.exists_getLast? {s last : Text} {front : List Text} (h : Settled s)
    (hr : rows s = front ++ [last]) : ∃ c, last.getLast? = some c ∧ isBlank c = false := by
  have hends := trimEnd_eq_self_iff.1 h.ends
  have hne : s ≠ [] := by
    rintro rfl
    have := h.flush.first [] rfl
    cases this
  have hlast := last_ne_nil_of_rows hr hne fun hc => absurd (hends '\n' hc) (by decide)
  obtain ⟨c, hc⟩ := Option.ne_none_iff_exists'.1 (mt List.getLast?_eq_none_iff.1 hlast)
  exact ⟨c, hc, hends c (by rw [← join_rows s, hr, getLast?_join_append hlast, hc])⟩

theorem dropReturn_of_getLast? {row : Text} {c : Char} (h : row.getLast? = some c) (hc : isBlank c = false) :
    dropReturn row = row := by
  apply dropReturn_of_ne
  rw [h]
  rintro ⟨rfl⟩
  cases hc

/-- The lines of a settled text are its rows without their carriage returns. -/
theorem lines_of_settled {s : Text} (h : Settled s) : lines s = (rows s).map dropReturn := by
  obtain ⟨front, last, hr⟩ := exists_rows_eq_append s
  obtain ⟨c, hc, hb⟩ := h.exists_getLast? hr
  have hne : last ≠ [] := by
    rintro rfl
    cases hc
  have hmem : '\n' ∉ last := not_mem_of_mem_rows (t := s) (by rw [hr]; simp)
  rw [lines_eq_of_rows hr, lines_of_not_mem hmem hne, hr, List.map_append, List.map_singleton,
    dropReturn_of_getLast? hc hb]

theorem lines_block {s : Text} (h : Settled s) :
    lines (block s) = [] :: ((((rows s).map dropReturn).map dropReturn).map indentRow ++ [endIndent]) := by
  have hmem : ∀ row ∈ ((rows s).map dropReturn).map indentRow, '\n' ∉ row := by
    intro row hrow
    rw [List.map_map, List.mem_map] at hrow
    obtain ⟨row, hrow, rfl⟩ := hrow
    exact not_mem_indentRow (not_mem_dropReturn (not_mem_of_mem_rows hrow))
  have hend : lines endIndent = [endIndent] := rfl
  have hbreak : block s = [] ++ '\n' :: (indent s ++ '\n' :: endIndent) := rfl
  rw [hbreak, lines_append (by simp), indent_eq, h.ends, lines_of_settled h,
    lines_join_append hmem (by simp [rows_ne_nil]), hend, List.map_map (g := dropReturn),
    List.map_map (f := dropReturn) (g := indentRow)]
  congr 2
  exact List.map_congr_left fun row _ => dropReturn_indentRow row

/-- A block reads back without the carriage returns at the ends of the rows: one goes when the
rows are indented and one when the block is read. -/
theorem extract_block {s : Text} (h : Settled s) :
    extract (block s) = join ['\n'] (((rows s).map dropReturn).map dropReturn) := by
  have hflush := h.flush.map_dropReturn.map_dropReturn
  obtain ⟨front, last, hr⟩ := exists_rows_eq_append s
  obtain ⟨c, hc, hb⟩ := h.exists_getLast? hr
  set xs := ((rows s).map dropReturn).map dropReturn with hxs
  have hfirst : (xs.map indentRow ++ [endIndent]).dropWhile allBlank = xs.map indentRow ++ [endIndent] := by
    obtain ⟨row, others, hx⟩ := List.exists_cons_of_ne_nil (show xs ≠ [] by simp [hxs, rows_ne_nil])
    have := hflush.first row (by rw [hx]; rfl)
    rw [hx, List.map_cons, List.cons_append, List.dropWhile_cons_of_neg (by simp [this])]
  have hrows : extractRows (block s) = xs ++ [[]] := by
    rw [extractRows, lines_block h]
    simp only [allBlank_nil, if_true]
    rw [hfirst, dedent_indent hflush]
  rw [extract, hrows, join_append (by simp [hxs, rows_ne_nil]) (List.cons_ne_nil [] []), join_singleton,
    trimEnd_append_of_allBlank rfl, trimEnd_eq_self_iff]
  intro d hd
  have hne : last ≠ [] := by
    rintro rfl
    cases hc
  rw [hxs, hr, List.map_append, List.map_append, List.map_singleton, List.map_singleton,
    dropReturn_of_getLast? hc hb, dropReturn_of_getLast? hc hb, getLast?_join_append hne, hc] at hd
  exact Option.some.inj hd ▸ hb

theorem extract_block_nil : extract (block []) = [] := by decide

theorem not_mem_of_mem_map_dropReturn {row s : Text} (h : row ∈ ((rows s).map dropReturn).map dropReturn) :
    '\n' ∉ row := by
  rw [List.map_map, List.mem_map] at h
  obtain ⟨row, hrow, rfl⟩ := h
  exact not_mem_dropReturn (not_mem_dropReturn (not_mem_of_mem_rows hrow))

/-- A settled text comes back from its block exactly when it holds no pair. -/
theorem extract_block_eq_self_iff {s : Text} (h : Settled s) : extract (block s) = s ↔ ¬ HasPair s := by
  obtain ⟨front, last, hr⟩ := exists_rows_eq_append s
  have hpair : HasPair s ↔ ∃ row ∈ front, row.getLast? = some '\r' := by
    conv_lhs => rw [← join_rows s]
    rw [hasPair_join fun row => not_mem_of_mem_rows, hr, List.dropLast_concat]
  rw [extract_block h, hpair]
  constructor
  · rintro hs ⟨row, hrow, hret⟩
    have hmap : ((rows s).map dropReturn).map dropReturn = rows s := by
      rw [← rows_join (fun row => not_mem_of_mem_map_dropReturn) (by simp [rows_ne_nil]), hs]
    rw [List.map_map] at hmap
    -- the row is shorter now by its carriage return
    have hself : dropReturn (dropReturn row) = row :=
      List.map_eq_map_iff.1 (hmap.trans (List.map_id _).symm) row (by simp [hr, hrow])
    obtain ⟨x, rfl⟩ := List.getLast?_eq_some_iff.1 hret
    have := length_dropReturn_le x
    rw [dropReturn_append_return] at hself
    rw [hself, List.length_append, List.length_singleton] at this
    omega
  · intro hn
    have hmap : (rows s).map dropReturn = rows s := by
      apply map_dropReturn_of_ne
      intro row hrow hreturn
      rw [hr, List.mem_append, List.mem_singleton] at hrow
      rcases hrow with hrow | rfl
      · exact hn ⟨row, hrow, hreturn⟩
      · obtain ⟨c, hc, hb⟩ := h.exists_getLast? hr
        obtain rfl := Option.some.inj (hc.symm.trans hreturn)
        cases hb
    rw [hmap, hmap, join_rows]

/-- Whatever the rows end in, they keep their numbers. -/
theorem count_extract_block {s : Text} (h : Settled s) : (extract (block s)).count '\n' = s.count '\n' := by
  have hl := count_join (((rows s).map dropReturn).map dropReturn)
    (fun row => not_mem_of_mem_map_dropReturn) (by simp [rows_ne_nil])
  have hr := count_join (rows s) (fun row => not_mem_of_mem_rows) (rows_ne_nil s)
  rw [join_rows] at hr
  simp only [List.length_map] at hl
  rw [extract_block h]
  omega

/-! ## What extraction leaves -/

/-- Rows with content somewhere end in blank rows after the last row with content. -/
theorem exists_last_content {xs : List Text} (h : ∃ row ∈ xs, allBlank row = false) :
    ∃ front row back, xs = front ++ row :: back ∧ allBlank row = false ∧ ∀ b ∈ back, allBlank b = true := by
  have hne : xs.rdropWhile allBlank ≠ [] := by
    obtain ⟨row, hrow, hb⟩ := h
    intro hn
    rw [List.rdropWhile_eq_nil_iff] at hn
    exact absurd (hn row hrow) (by simp [hb])
  refine ⟨(xs.rdropWhile allBlank).dropLast, (xs.rdropWhile allBlank).getLast hne, xs.rtakeWhile allBlank, ?_, ?_,
    fun b => List.mem_rtakeWhile_imp⟩
  · conv_lhs => rw [← List.rdropWhile_append_rtakeWhile (p := allBlank) (l := xs),
      ← List.dropLast_append_getLast hne]
    simp
  · simpa using List.rdropWhile_last_not allBlank xs hne

theorem allBlank_join {xs : List Text} (h : ∀ row ∈ xs, allBlank row = true) :
    allBlank (join ['\n'] xs) = true := by
  induction xs with
  | nil => rfl
  | cons row xs ih =>
    rw [List.forall_mem_cons] at h
    by_cases hn : xs = []
    · simp [hn, h.1]
    · simp [join_cons_of_ne_nil hn, h.1, ih h.2, show isBlank '\n' = true from rfl]

/-- Trimming the end of joined rows drops the blank ones behind and trims the last with content. -/
theorem trimEnd_join {front back : List Text} {row : Text} (hrow : allBlank row = false)
    (hback : ∀ b ∈ back, allBlank b = true) :
    trimEnd (join ['\n'] (front ++ row :: back)) = join ['\n'] (front ++ [trimEnd row]) := by
  obtain ⟨before, hbefore⟩ := exists_join_concat front
  have hlast : trimEnd (join ['\n'] (front ++ [row])) = join ['\n'] (front ++ [trimEnd row]) := by
    rw [hbefore, hbefore, trimEnd_append_of_not_allBlank hrow]
  by_cases hn : back = []
  · rw [hn, hlast]
  · rw [List.append_cons, join_append (by simp) hn, trimEnd_append_of_allBlank, hlast]
    simp [allBlank_join hback, show isBlank '\n' = true from rfl]

/-- Flush rows make up a settled text, once the blanks at its end are gone. -/
theorem settled_trimEnd_join {xs : List Text} (h : Flush xs) (hmem : ∀ row ∈ xs, '\n' ∉ row) :
    Settled (trimEnd (join ['\n'] xs)) := by
  refine ⟨?_, trimEnd_trimEnd _⟩
  obtain ⟨front, row, back, rfl, hrow, hback⟩ := exists_last_content h.exists_content
  have hmem' : ∀ x ∈ front ++ [trimEnd row], '\n' ∉ x := by
    intro x hx
    rcases List.mem_append.1 hx with hx | hx
    · exact hmem x (List.mem_append_left _ hx)
    · rw [List.mem_singleton] at hx
      exact hx ▸ not_mem_trimEnd (hmem row (by simp))
  rw [trimEnd_join hrow hback, rows_join hmem' (by simp)]
  constructor
  · intro x hx
    cases front with
    | nil =>
      obtain rfl : trimEnd row = x := by simpa using hx
      rw [allBlank_trimEnd, hrow]
    | cons y front => exact h.first x (by simpa using hx)
  · intro x hx hb
    rcases List.mem_append.1 hx with hx | hx
    · exact h.blank x (List.mem_append_left _ hx) hb
    · rw [List.mem_singleton.1 hx, allBlank_trimEnd, hrow] at hb
      cases hb
  · intro w hw
    obtain ⟨x, hx, hb, hne⟩ := h.indent w hw
    rcases List.mem_append.1 hx with hx | hx
    · exact ⟨x, List.mem_append_left _ hx, hb, hne⟩
    · rcases List.mem_cons.1 hx with rfl | hx
      · exact ⟨trimEnd x, by simp, by rw [allBlank_trimEnd, hb], by rwa [head?_trimEnd hb]⟩
      · rw [hback x hx] at hb
        cases hb

/-! ### Dedented rows -/

/-- One row without the shared indentation. -/
def dedentRow (width : Nat) (row : Text) : Text := if allBlank row then [] else row.drop width

theorem dedent_eq (xs : List Text) : dedent xs = xs.map (dedentRow (indentOf xs).length) := rfl

/-- A row with content is the shared indentation and the dedented row. -/
theorem exists_dedentRow {xs : List Text} {row : Text} (h : row ∈ xs) (hb : allBlank row = false) :
    row = indentOf xs ++ dedentRow (indentOf xs).length row ∧ allBlank (indentOf xs) = true := by
  have hp : indentOf xs <+: row.takeWhile isBlank :=
    (prefix_indentOf_iff ⟨row, h, hb⟩).1 List.prefix_rfl row h hb
  obtain ⟨tail, htail⟩ := hp.trans (List.takeWhile_prefix isBlank)
  constructor
  · rw [dedentRow, if_neg (by simp [hb])]
    conv_rhs => rw [← htail, List.drop_left]
    exact htail.symm
  · exact allBlank_iff.2 fun c hc => List.mem_takeWhile_imp (hp.subset hc)

theorem allBlank_dedentRow {xs : List Text} {row : Text} (h : row ∈ xs) (hb : allBlank row = false) :
    allBlank (dedentRow (indentOf xs).length row) = false := by
  obtain ⟨hrow, hi⟩ := exists_dedentRow h hb
  rw [hrow, allBlank_append, hi, Bool.true_and] at hb
  exact hb

theorem dedentRow_eq_nil {xs : List Text} {row : Text} (h : row ∈ xs)
    (hb : allBlank (dedentRow (indentOf xs).length row) = true) : dedentRow (indentOf xs).length row = [] := by
  cases hr : allBlank row with
  | true => simp [dedentRow, hr]
  | false =>
    rw [allBlank_dedentRow h hr] at hb
    cases hb

theorem flush_dedent {xs : List Text} (h : ∀ row, xs.head? = some row → allBlank row = false) (hne : xs ≠ []) :
    Flush (dedent xs) := by
  obtain ⟨first, others, rfl⟩ := List.exists_cons_of_ne_nil hne
  have hfirst : allBlank first = false := h first rfl
  rw [dedent_eq]
  generalize hxs : first :: others = xs at *
  constructor
  · intro row hrow
    rw [← hxs, List.map_cons, List.head?_cons, Option.some.injEq] at hrow
    rw [← hrow, hxs, allBlank_dedentRow (by simp [← hxs]) hfirst]
  · intro row hrow hb
    obtain ⟨row, hmem, rfl⟩ := List.mem_map.1 hrow
    exact dedentRow_eq_nil hmem hb
  · intro w hw
    by_contra hall
    have hlong : indentOf xs ++ [w] <+: indentOf xs := by
      apply (prefix_indentOf_iff ⟨first, by simp [← hxs], hfirst⟩).2
      intro row hrow hb
      obtain ⟨he, hi⟩ := exists_dedentRow hrow hb
      have hw' : (dedentRow (indentOf xs).length row).head? = some w := by
        by_contra hne
        exact hall ⟨_, List.mem_map_of_mem hrow, allBlank_dedentRow hrow hb, hne⟩
      obtain ⟨tail, htail⟩ := List.head?_eq_some_iff.1 hw'
      rw [htail] at he
      conv_rhs => rw [he, List.takeWhile_append_of_pos (allBlank_iff.1 hi), List.takeWhile_cons_of_pos hw]
      exact (List.prefix_append_right_inj _).2 ⟨_, rfl⟩
    have := hlong.length_le
    rw [List.length_append, List.length_singleton] at this
    omega

theorem not_mem_of_mem_dedent {xs : List Text} {row : Text} (h : ∀ x ∈ xs, '\n' ∉ x) (hr : row ∈ dedent xs) :
    '\n' ∉ row := by
  rw [dedent_eq] at hr
  obtain ⟨x, hx, rfl⟩ := List.mem_map.1 hr
  unfold dedentRow
  split
  · simp
  · exact fun hc => h x hx (List.mem_of_mem_drop hc)

/-- The rows of extracted code are none, or flush. -/
theorem flush_extractRows (raw : Text) :
    extractRows raw = [] ∨ (Flush (extractRows raw) ∧ ∀ row ∈ extractRows raw, '\n' ∉ row) := by
  unfold extractRows
  cases hl : lines raw with
  | nil => exact .inl rfl
  | cons first others =>
    have hmem : ∀ row ∈ first :: others, '\n' ∉ row := fun row hrow => not_mem_of_mem_lines (hl ▸ hrow)
    rw [List.forall_mem_cons] at hmem
    simp only
    split
    · by_cases hn : others.dropWhile allBlank = []
      · exact .inl (by rw [hn]; rfl)
      · refine .inr ⟨flush_dedent (fun row hrow => ?_) hn, fun row => not_mem_of_mem_dedent fun x hx =>
          hmem.2 x ((List.dropWhile_suffix allBlank).subset hx)⟩
        have := List.head?_dropWhile_not allBlank others
        rw [hrow] at this
        exact this
    · next hb =>
      have hb : allBlank first = false := by simpa using hb
      have hnot : ∀ row ∈ trimStart first :: dedent others, '\n' ∉ row := by
        rw [List.forall_mem_cons]
        exact ⟨fun hc => hmem.1 ((List.dropWhile_suffix isBlank).subset hc),
          fun row => not_mem_of_mem_dedent hmem.2⟩
      refine .inr ⟨⟨?_, ?_, ?_⟩, hnot⟩
      · rintro row ⟨rfl⟩
        rw [allBlank_trimStart, hb]
      · intro row hrow hrb
        rcases List.mem_cons.1 hrow with rfl | hrow
        · rw [allBlank_trimStart, hb] at hrb
          cases hrb
        · rw [dedent_eq] at hrow
          obtain ⟨x, hx, rfl⟩ := List.mem_map.1 hrow
          exact dedentRow_eq_nil hx hrb
      · intro w hw
        refine ⟨trimStart first, List.mem_cons_self, by rw [allBlank_trimStart, hb], fun hc => ?_⟩
        -- code on the first line begins with its first character that is not blank
        have := trimStart_eq_self_iff.1 (trimStart_trimStart first) w hc
        rw [hw] at this
        cases this

/-- Extracted code is empty or settled. -/
theorem settled_extract (raw : Text) : extract raw = [] ∨ Settled (extract raw) := by
  rcases flush_extractRows raw with h | ⟨h, hmem⟩
  · exact .inl (by rw [extract, h]; rfl)
  · exact .inr (settled_trimEnd_join h hmem)

end LintFixture.Fixture.Snippet
