import LintFixture.Fixture.Margin
import LintFixture.Proofs.Fixture.Snippet
import LintFixture.Proofs.Text.Bytes
import Mathlib.Order.Bounds.Basic

/-!
# The lines that extraction leaves

Extraction keeps the lines from the first with content to the last and takes one
margin off them, as much as they all share (`extract_dedents`). Cutting the lines by
bytes comes to the same, with every place on a character boundary
(`Margin.extract?_eq`).
-/

namespace LintFixture.Fixture

namespace Snippet

open Text

variable {row : Text} {xs ys before after back : List Text} {first : Nat}

/-! ## The rows of the code -/

/-- What extraction makes of the lines of an element. -/
def codeRows : List Text → List Text
  | [] => []
  | first :: others =>
    if allBlank first then dedent (others.dropWhile allBlank) else trimStart first :: dedent others

theorem extractRows_eq (raw : Text) : extractRows raw = codeRows (lines raw) := by
  unfold extractRows codeRows
  cases lines raw <;> rfl

theorem extract_eq (raw : Text) : extract raw = trimEnd (join ['\n'] (codeRows (lines raw))) := by
  rw [extract, extractRows_eq]

/-- Code that begins on the line of the opening tag. -/
theorem codeRows_cons (h : allBlank row = false) : codeRows (row :: after) = trimStart row :: dedent after := by
  simp [codeRows, h]

/-- Code that begins on a later line. -/
theorem codeRows_append (hbefore : ∀ b ∈ before, allBlank b = true) (hne : before ≠ []) (h : allBlank row = false) :
    codeRows (before ++ row :: after) = dedent (row :: after) := by
  obtain ⟨first, others, rfl⟩ := List.exists_cons_of_ne_nil hne
  rw [List.forall_mem_cons] at hbefore
  rw [List.cons_append, codeRows, if_pos hbefore.1, List.dropWhile_append_of_pos hbefore.2,
    List.dropWhile_cons_of_neg (by simp [h])]

theorem codeRows_of_blank (h : ∀ row ∈ xs, allBlank row = true) : codeRows xs = [] := by
  cases xs with
  | nil => rfl
  | cons first others =>
    rw [List.forall_mem_cons] at h
    rw [codeRows, if_pos h.1, List.dropWhile_eq_nil_iff.2 h.2]
    rfl

/-! ### Blank lines behind the code -/

theorem indentOf_append_blank (h : ∀ b ∈ back, allBlank b = true) : indentOf (xs ++ back) = indentOf xs := by
  have hback : back.filter (!allBlank ·) = [] := List.filter_eq_nil_iff.2 fun b hb => by simp [h b hb]
  rw [indentOf, indentOf, List.filter_append, hback, List.append_nil]

theorem dedent_append_blank (h : ∀ b ∈ back, allBlank b = true) :
    dedent (xs ++ back) = dedent xs ++ back.map fun _ => [] := by
  rw [dedent_eq, dedent_eq, indentOf_append_blank h, List.map_append]
  congr 1
  exact List.map_congr_left fun b hb => if_pos (h b hb)

/-- Blank lines behind the code only add empty rows. -/
theorem codeRows_append_blank (h : allBlank row = false) (hbefore : ∀ b ∈ before, allBlank b = true)
    (hback : ∀ b ∈ back, allBlank b = true) :
    codeRows (before ++ row :: after ++ back) = codeRows (before ++ row :: after) ++ back.map fun _ => [] := by
  rw [List.append_assoc, List.cons_append]
  by_cases hne : before = []
  · subst hne
    rw [List.nil_append, codeRows_cons h, List.nil_append, codeRows_cons h, dedent_append_blank hback,
      List.cons_append]
  · rw [codeRows_append hbefore hne h, codeRows_append hbefore hne h, ← dedent_append_blank hback,
      List.cons_append]

theorem exists_first_content (h : ∃ row ∈ xs, allBlank row = false) :
    ∃ before row after, xs = before ++ row :: after ∧ allBlank row = false ∧ ∀ b ∈ before, allBlank b = true := by
  have hreverse : ∃ row ∈ xs.reverse, allBlank row = false := by simpa using h
  obtain ⟨back, row, front, hsplit, hrow, hfront⟩ := exists_last_content hreverse
  refine ⟨front.reverse, row, back.reverse, ?_, hrow, by simpa using hfront⟩
  rw [← List.reverse_reverse xs, hsplit]
  simp

/-- Blank rows at the end are trimmed away. -/
theorem trimEnd_join_append_blank (h : ∀ b ∈ back, allBlank b = true) :
    trimEnd (join ['\n'] (xs ++ back)) = trimEnd (join ['\n'] xs) := by
  by_cases hb : back = []
  · rw [hb, List.append_nil]
  · by_cases hx : xs = []
    · rw [hx, List.nil_append, trimEnd_eq_nil_iff.2 (allBlank_join h)]
      rfl
    · rw [join_append hx hb, trimEnd_append_of_allBlank]
      simp [allBlank_join h, show isBlank '\n' = true from rfl]

/-- Blank lines behind the code do not matter. -/
theorem trimEnd_join_codeRows (xs : List Text) (h : ∀ b ∈ back, allBlank b = true) :
    trimEnd (join ['\n'] (codeRows (xs ++ back))) = trimEnd (join ['\n'] (codeRows xs)) := by
  by_cases hxs : ∃ row ∈ xs, allBlank row = false
  · obtain ⟨before, row, after, rfl, hrow, hbefore⟩ := exists_first_content hxs
    rw [codeRows_append_blank hrow hbefore h, trimEnd_join_append_blank]
    simp
  · simp only [not_exists, not_and, Bool.not_eq_false] at hxs
    rw [codeRows_of_blank hxs, codeRows_of_blank (List.forall_mem_append.2 ⟨hxs, h⟩)]

/-! ## Line by line -/

/-- Indices of the lines with content. -/
def contentIn (xs : List Text) : Set Nat := {i | ∃ row, xs[i]? = some row ∧ allBlank row = false}

theorem isLeast_contentIn (h : allBlank row = false) (hbefore : ∀ b ∈ before, allBlank b = true) :
    IsLeast (contentIn (before ++ row :: after)) before.length := by
  refine ⟨⟨row, by simp, h⟩, ?_⟩
  rintro i ⟨line, hline, hcontent⟩
  by_contra hlt
  rw [List.getElem?_append_left (by omega)] at hline
  rw [hbefore line (List.mem_of_getElem? hline)] at hcontent
  cases hcontent

theorem isGreatest_contentIn (h : allBlank row = false) (hback : ∀ b ∈ back, allBlank b = true) :
    IsGreatest (contentIn (before ++ row :: back)) before.length := by
  refine ⟨⟨row, by simp, h⟩, ?_⟩
  rintro i ⟨line, hline, hcontent⟩
  by_contra hlt
  rw [List.append_cons, List.getElem?_append_right (by simp; omega)] at hline
  rw [hback line (List.mem_of_getElem? hline)] at hcontent
  cases hcontent

/-- What becomes of line `i`: a blank line is empty, the opening line loses its blank start, and any
other loses the margin. -/
inductive Cut (margin : Text) : Nat → Text → Text → Prop
  | blank {i : Nat} {line : Text} (h : allBlank line = true) : Cut margin i line []
  | opening {line : Text} (h : allBlank line = false) : Cut margin 0 line (trimStart line)
  | later {i : Nat} {line out : Text} (h : allBlank line = false) (hi : i ≠ 0) (hline : line = margin ++ out) :
    Cut margin i line out

/-- The rows `ys` are the lines `xs` from `first` to `last` without `margin`, the longest blank text that all
of them with content start with, but for the opening line. The last row loses the blanks at its end, too. -/
structure Dedents (xs : List Text) (first last : Nat) (margin : Text) (ys : List Text) : Prop where
  length : ys.length = last - first + 1
  longest : 0 < last → ∀ p, p <+: margin ↔ allBlank p = true ∧
    ∀ i line, max first 1 ≤ i → i ≤ last → xs[i]? = some line → allBlank line = false → p <+: line
  row : ∀ k, first + k ≤ last → ∃ line out, xs[first + k]? = some line ∧ Cut margin (first + k) line out ∧
    ys[k]? = some (if first + k = last then trimEnd out else out)

/-- The margin of code that begins on line `first`. -/
def marginOf (first : Nat) (xs : List Text) : Text := indentOf (xs.drop (max first 1))

/-- The row that is made from line `i`. -/
def cutLine (margin : Text) (i : Nat) (line : Text) : Text :=
  if i = 0 then trimStart line else dedentRow margin.length line

theorem getElem?_codeRows (h : allBlank row = false) (hbefore : ∀ b ∈ before, allBlank b = true)
    (after : List Text) (k : Nat) :
    (codeRows (before ++ row :: after))[k]? =
      (row :: after)[k]?.map (cutLine (marginOf before.length (before ++ row :: after)) (before.length + k)) := by
  by_cases hne : before = []
  · subst hne
    rw [List.nil_append, codeRows_cons h, dedent_eq]
    cases k with
    | zero => rfl
    | succ k =>
      rw [List.getElem?_cons_succ, List.getElem?_cons_succ, List.getElem?_map]
      rfl
  · have hpos : 0 < before.length := List.length_pos_iff.2 hne
    rw [codeRows_append hbefore hne h, dedent_eq, List.getElem?_map, marginOf, Nat.max_eq_left hpos, List.drop_left]
    congr 1
    funext line
    rw [cutLine, if_neg (by omega)]

theorem mem_drop_iff {n : Nat} : row ∈ xs.drop n ↔ ∃ i, n ≤ i ∧ xs[i]? = some row := by
  simp only [List.mem_iff_getElem?, List.getElem?_drop]
  constructor
  · rintro ⟨k, hk⟩
    exact ⟨n + k, Nat.le_add_right n k, hk⟩
  · rintro ⟨i, hi, hrow⟩
    exact ⟨i - n, by rwa [Nat.add_sub_cancel' hi]⟩

theorem prefix_takeWhile_isBlank_iff {p : Text} : p <+: row.takeWhile isBlank ↔ allBlank p = true ∧ p <+: row := by
  constructor
  · intro h
    exact ⟨allBlank_iff.2 fun c hc => List.mem_takeWhile_imp (h.subset hc), h.trans (List.takeWhile_prefix _)⟩
  · rintro ⟨hp, tail, rfl⟩
    rw [List.takeWhile_append_of_pos (allBlank_iff.1 hp)]
    exact List.prefix_append _ _

/-- The margin is the longest blank text that all lines with content behind the opening one start with. -/
theorem prefix_marginOf_iff {p : Text} (h : ∃ row ∈ xs.drop (max first 1), allBlank row = false) :
    p <+: marginOf first xs ↔ allBlank p = true ∧
      ∀ i line, max first 1 ≤ i → xs[i]? = some line → allBlank line = false → p <+: line := by
  rw [marginOf, prefix_indentOf_iff h]
  simp only [prefix_takeWhile_isBlank_iff, mem_drop_iff] at h ⊢
  constructor
  · intro hp
    obtain ⟨row, hrow, hb⟩ := h
    exact ⟨(hp row hrow hb).1, fun i line hi hline hb => (hp line ⟨i, hi, hline⟩ hb).2⟩
  · rintro ⟨hblank, hp⟩ line ⟨i, hi, hline⟩ hb
    exact ⟨hblank, hp i line hi hline hb⟩

/-- Lines behind the last one with content do not narrow the margin. -/
theorem prefix_marginOf_append_iff {p line : Text} {last : Nat} (hlength : xs.length = last + 1)
    (hfirst : max first 1 ≤ last) (hlast : xs[last]? = some line) (hb : allBlank line = false) :
    p <+: marginOf first xs ↔ allBlank p = true ∧ ∀ i line, max first 1 ≤ i → i ≤ last →
      (xs ++ back)[i]? = some line → allBlank line = false → p <+: line := by
  have hmem : line ∈ xs.drop (max first 1) := mem_drop_iff.2 ⟨last, hfirst, hlast⟩
  rw [prefix_marginOf_iff ⟨line, hmem, hb⟩]
  refine and_congr_right fun _ => forall₂_congr fun i line => ?_
  constructor
  · intro h hi hle hline
    exact h hi (by rwa [List.getElem?_append_left (by omega)] at hline)
  · intro h hi hline
    have hlt := (List.getElem?_eq_some_iff.1 hline).1
    exact h hi (by omega) (by rwa [List.getElem?_append_left hlt])

theorem allBlank_marginOf (first : Nat) (xs : List Text) : allBlank (marginOf first xs) = true := by
  by_cases h : ∃ row ∈ xs.drop (max first 1), allBlank row = false
  · obtain ⟨row, hrow, hb⟩ := h
    exact (exists_dedentRow hrow hb).2
  · have hnone : (xs.drop (max first 1)).filter (!allBlank ·) = [] := List.filter_eq_nil_iff.2 (by simpa using h)
    rw [marginOf, indentOf, hnone]
    rfl

theorem cut_cutLine {i : Nat} {line : Text} (h : xs[i]? = some line) (hi : first ≤ i) :
    Cut (marginOf first xs) i line (cutLine (marginOf first xs) i line) := by
  unfold cutLine
  split
  · next hzero =>
    subst hzero
    cases hb : allBlank line with
    | true =>
      rw [show trimStart line = [] from List.dropWhile_eq_nil_iff.2 (allBlank_iff.1 hb)]
      exact .blank hb
    | false => exact .opening hb
  · next hpos =>
    cases hb : allBlank line with
    | true =>
      rw [dedentRow, if_pos hb]
      exact .blank hb
    | false =>
      have hmem : line ∈ xs.drop (max first 1) := mem_drop_iff.2 ⟨i, by omega, h⟩
      exact .later hb hpos (exists_dedentRow hmem hb).1

theorem Cut.allBlank_eq {margin line out : Text} {i : Nat} (hmargin : allBlank margin = true)
    (h : Cut margin i line out) : allBlank out = allBlank line := by
  cases h with
  | blank h => rw [h, allBlank_nil]
  | opening => exact allBlank_trimStart line
  | later _ _ hline => rw [hline, allBlank_append, hmargin, Bool.true_and]

/-- Lines with content somewhere are the code, from the first with content to the last, between blank lines. -/
theorem exists_code (h : ∃ row ∈ xs, allBlank row = false) :
    ∃ before row after back front last, xs = before ++ row :: after ++ back ∧ row :: after = front ++ [last] ∧
      allBlank row = false ∧ allBlank last = false ∧ (∀ b ∈ before, allBlank b = true) ∧
      ∀ b ∈ back, allBlank b = true := by
  obtain ⟨before, row, rest, rfl, hrow, hbefore⟩ := exists_first_content h
  have hmem : row ∈ row :: rest := List.mem_cons_self
  obtain ⟨front, last, back, hsplit, hlast, hback⟩ := exists_last_content ⟨row, hmem, hrow⟩
  rw [List.append_cons] at hsplit
  obtain ⟨after, hafter⟩ : ∃ after, row :: after = front ++ [last] := by
    cases front with
    | nil => exact ⟨[], by simpa using (List.cons.inj hsplit).1⟩
    | cons x front => exact ⟨front ++ [last], by rw [(List.cons.inj hsplit).1, List.cons_append]⟩
  refine ⟨before, row, after, back, front, last, ?_, hafter, hrow, hlast, hbefore, hback⟩
  rw [hsplit, ← hafter, List.append_assoc, List.cons_append]

/-- The rows of the code are made from its lines one by one. -/
theorem codeRows_eq_concat {front : List Text} {last : Text} (h : allBlank row = false)
    (hbefore : ∀ b ∈ before, allBlank b = true) (hcode : row :: after = front ++ [last]) :
    codeRows (before ++ row :: after) =
      (front.mapIdx fun k => cutLine (marginOf before.length (before ++ row :: after)) (before.length + k)) ++
        [cutLine (marginOf before.length (before ++ row :: after)) (before.length + front.length) last] := by
  have hmap := (List.mapIdx_eq_iff.2 (getElem?_codeRows h hbefore after)).symm
  rw [hmap]
  generalize marginOf before.length (before ++ row :: after) = margin
  rw [hcode, List.mapIdx_concat]

theorem not_mem_of_mem_codeRows {raw : Text} (h : row ∈ codeRows (lines raw)) : '\n' ∉ row := by
  rw [← extractRows_eq] at h
  rcases flush_extractRows raw with hnil | ⟨-, hmem⟩
  · rw [hnil] at h
    cases h
  · exact hmem row h

/-- The rows of extracted code are those of its lines, the last one without the blanks at its end. -/
theorem rows_extract {raw last : Text} {front : List Text} (hlines : lines raw = before ++ row :: after ++ back)
    (hrow : allBlank row = false) (hbefore : ∀ b ∈ before, allBlank b = true) (hback : ∀ b ∈ back, allBlank b = true)
    (hcode : codeRows (before ++ row :: after) = front ++ [last]) (hlast : allBlank last = false) :
    rows (extract raw) = front ++ [trimEnd last] := by
  have hmem : ∀ x ∈ front ++ [last], '\n' ∉ x := by
    intro x hx
    have hrows : x ∈ codeRows (lines raw) := by
      rw [hlines, codeRows_append_blank hrow hbefore hback, hcode]
      exact List.mem_append_left _ hx
    exact not_mem_of_mem_codeRows hrows
  rw [extract_eq, hlines, trimEnd_join_codeRows _ hback, hcode, trimEnd_join hlast (by simp)]
  refine rows_join ?_ (by simp)
  rw [List.forall_mem_append] at hmem ⊢
  exact ⟨hmem.1, by simpa using not_mem_trimEnd (hmem.2 last (by simp))⟩

theorem getElem?_concat_trimEnd (front : List Text) (last : Text) (k : Nat) :
    (front ++ [trimEnd last])[k]? =
      (front ++ [last])[k]?.map fun out => if k = front.length then trimEnd out else out := by
  rcases Nat.lt_trichotomy k front.length with h | rfl | h
  · rw [List.getElem?_append_left h, List.getElem?_append_left h]
    simp [Nat.ne_of_lt h]
  · simp
  · rw [List.getElem?_eq_none, List.getElem?_eq_none] <;> simp <;> omega

/-- What extraction leaves of code between blank lines. -/
theorem dedents_extract {raw last : Text} {front : List Text} (hlines : lines raw = before ++ row :: after ++ back)
    (hcode : row :: after = front ++ [last]) (hrow : allBlank row = false) (hlast : allBlank last = false)
    (hbefore : ∀ b ∈ before, allBlank b = true) (hback : ∀ b ∈ back, allBlank b = true) :
    Dedents (lines raw) before.length (before.length + front.length)
      (marginOf before.length (before ++ row :: after)) (rows (extract raw)) := by
  have hget := getElem?_codeRows hrow hbefore after
  have hrows := codeRows_eq_concat hrow hbefore hcode
  have hlength : (before ++ row :: after).length = before.length + front.length + 1 := by
    rw [hcode, ← List.append_assoc, List.length_append, List.length_append, List.length_singleton]
  have hlastline : (before ++ row :: after)[before.length + front.length]? = some last := by simp [hcode]
  -- the last row has content, so trimming the joined rows ends in it
  have hlastrow := (cut_cutLine hlastline (Nat.le_add_right _ _)).allBlank_eq (allBlank_marginOf _ _)
  rw [rows_extract hlines hrow hbefore hback hrows (hlastrow.trans hlast)]
  refine ⟨by simp, fun hpos p => ?_, fun k hk => ?_⟩
  · rw [hlines]
    exact prefix_marginOf_append_iff hlength (by omega) hlastline hlast
  · obtain ⟨line, hline⟩ : ∃ line, (before ++ row :: after)[before.length + k]? = some line :=
      ⟨_, List.getElem?_eq_getElem (by omega)⟩
    refine ⟨line, _, ?_, cut_cutLine hline (Nat.le_add_right _ _), ?_⟩
    · rw [hlines, List.getElem?_append_left (by omega), hline]
    · rw [List.getElem?_append_right (Nat.le_add_right _ _), Nat.add_sub_cancel_left] at hline
      rw [getElem?_concat_trimEnd, ← hrows, hget, hline]
      simp

end Snippet

/-! ## By bytes -/

namespace Margin

open Text Snippet

variable {row : Text} {xs before after back : List Text}

theorem find?_places (offset : Nat) (row : Text) :
    ((places offset row).find? (!isBlank ·.2)).elim (offset + byteLength row) Prod.fst =
      offset + byteLength (row.takeWhile isBlank) := by
  induction row generalizing offset with
  | nil => rfl
  | cons c row ih =>
    cases hc : isBlank c with
    | false => simp [places, hc]
    | true => simpa [places, hc, Nat.add_assoc] using ih (offset + c.utf8Size)

theorem leading?_eq (row : Text) : leading? row = some (row.takeWhile isBlank) := by
  have hplace := find?_places 0 row
  rw [Nat.zero_add, Nat.zero_add] at hplace
  have htake := takeBytes?_append (row.takeWhile isBlank) (row.dropWhile isBlank)
  rw [List.takeWhile_append_dropWhile] at htake
  rw [leading?, hplace, htake]

theorem find?_zip_places (offset : Nat) (s t : Text) :
    (((places offset s).zip t).find? fun ((_, a), b) => a ≠ b).elim
        (offset + min (byteLength s) (byteLength t)) (·.1.1) = offset + byteLength (commonStart s t) := by
  induction s generalizing offset t with
  | nil => simp [places, commonStart]
  | cons a s ih =>
    cases t with
    | nil => simp [places, commonStart]
    | cons b t =>
      by_cases h : a = b
      · subst h
        simpa [places, commonStart, Nat.add_assoc, Nat.add_min_add_left] using ih (offset + a.utf8Size) t
      · simp [places, commonStart, h]

theorem sharedLength_eq (s t : Text) : sharedLength s t = byteLength (commonStart s t) := by
  simpa [sharedLength] using find?_zip_places 0 s t

theorem narrow?_none (row : Text) : narrow? none row = some (some (row.takeWhile isBlank)) := by
  rw [narrow?, leading?_eq]
  rfl

theorem narrow?_some (margin row : Text) :
    narrow? (some margin) row = some (some (commonStart margin (row.takeWhile isBlank))) := by
  obtain ⟨rest, hrest⟩ := (prefix_commonStart_iff.1 (List.prefix_refl (commonStart margin (row.takeWhile isBlank)))).1
  have htake := takeBytes?_append (commonStart margin (row.takeWhile isBlank)) rest
  rw [hrest] at htake
  simp [narrow?, leading?_eq, sharedLength_eq, htake]

theorem foldlM_narrow? (margin : Text) (xs : List Text) :
    xs.foldlM narrow? (some margin) = some (some ((xs.map (·.takeWhile isBlank)).foldl commonStart margin)) := by
  induction xs generalizing margin with
  | nil => rfl
  | cons row xs ih => simp [List.foldlM_cons, narrow?_some, ih]

theorem width?_eq (xs : List Text) : width? xs = some (byteLength (indentOf xs)) := by
  unfold width? indentOf
  cases xs.filter (!allBlank ·) with
  | nil => rfl
  | cons first others => simp [List.foldlM_cons, narrow?_none, foldlM_narrow?]

/-- The width of the margin is a place in every line with content. -/
theorem dropBytes?_indentOf (h : row ∈ xs) (hb : allBlank row = false) :
    dropBytes? row (byteLength (indentOf xs)) = some (dedentRow (indentOf xs).length row) := by
  conv_lhs => rw [(exists_dedentRow h hb).1]
  exact dropBytes?_append _ _

theorem cut?_eq (otherwise : Text → Option Text) (xs : List Text) :
    cut? otherwise (byteLength (indentOf xs)) xs = some (dedent xs) := by
  have hmap : ∀ ys ⊆ xs, cut? otherwise (byteLength (indentOf xs)) ys =
      some (ys.map (dedentRow (indentOf xs).length)) := by
    intro ys hys
    induction ys with
    | nil => rfl
    | cons row ys ih =>
      rw [List.cons_subset] at hys
      have hrest := ih hys.2
      unfold cut? at hrest ⊢
      rw [List.mapM_cons, hrest]
      cases hb : allBlank row with
      | true => simp [dedentRow, hb]
      | false => simp [dropBytes?_indentOf hys.1 hb]
  exact hmap xs (List.Subset.refl xs)

theorem findIdx?_content (h : allBlank row = false) (hbefore : ∀ b ∈ before, allBlank b = true) :
    (before ++ row :: after).findIdx? (!allBlank ·) = some before.length := by
  have hnone : before.findIdx? (!allBlank ·) = none := List.findIdx?_eq_none_iff.2 fun b hb => by simp [hbefore b hb]
  simp [List.findIdx?_append, hnone, List.findIdx?_cons, h]

theorem lastContent?_eq (h : allBlank row = false) (hback : ∀ b ∈ back, allBlank b = true) :
    lastContent? (before ++ row :: back) = some before.length := by
  have hreverse : (before ++ row :: back).reverse = back.reverse ++ row :: before.reverse := by simp
  rw [lastContent?, hreverse, findIdx?_content h (by simpa using hback)]
  simp

/-- Cutting the lines by bytes gives the code, without a stand-in for any line. -/
theorem extract?_eq (otherwise : Text → Option Text) (raw : Text) :
    extract? otherwise raw = some (Snippet.extract raw) := by
  by_cases h : ∃ row ∈ lines raw, allBlank row = false
  · obtain ⟨before, row, after, back, front, last, hlines, hcode, hrow, hlast, hbefore, hback⟩ := exists_code h
    have hfirst : (lines raw).findIdx? (!allBlank ·) = some before.length := by
      rw [hlines, List.append_assoc]
      exact findIdx?_content hrow hbefore
    have hlastidx : lastContent? (lines raw) = some (before.length + front.length) := by
      rw [hlines, hcode, ← List.append_assoc, List.append_assoc, ← List.length_append]
      exact lastContent?_eq hlast hback
    have htake : (lines raw).take (before.length + front.length + 1) = before ++ row :: after := by
      rw [hlines, List.take_left' (by simp [hcode, Nat.add_assoc])]
    simp only [extract?, hfirst, hlastidx, Option.getD_some, htake]
    rw [extract_eq, hlines, trimEnd_join_codeRows _ hback]
    by_cases hne : before = []
    · subst hne
      simp [codeRows_cons hrow, width?_eq, cut?_eq]
    · have hlength : before.length ≠ 0 := mt List.eq_nil_of_length_eq_zero hne
      simp [codeRows_append hbefore hne hrow, hlength, width?_eq, cut?_eq]
  · simp only [not_exists, not_and, Bool.not_eq_false] at h
    have hnone : (lines raw).findIdx? (!allBlank ·) = none :=
      List.findIdx?_eq_none_iff.2 fun row hrow => by simp [h row hrow]
    rw [extract_eq, codeRows_of_blank h]
    simp only [extract?, hnone]
    rfl

end Margin

namespace Snippet

open Text

/-- Extraction drops the blank lines around the code and takes its margin off, line by line, and it cuts the lines
on character boundaries only. -/
theorem extract_dedents (raw : Text) :
    (∀ otherwise, Margin.extract? otherwise raw = some (extract raw)) ∧
    ((∀ row ∈ lines raw, allBlank row = true) → extract raw = []) ∧
    ((∃ row ∈ lines raw, allBlank row = false) →
      ∃ first last margin, IsLeast (contentIn (lines raw)) first ∧ IsGreatest (contentIn (lines raw)) last ∧
        Dedents (lines raw) first last margin (rows (extract raw))) := by
  refine ⟨fun otherwise => Margin.extract?_eq otherwise raw, fun h => ?_, fun h => ?_⟩
  · rw [extract_eq, codeRows_of_blank h]
    rfl
  · obtain ⟨before, row, after, back, front, last, hlines, hcode, hrow, hlast, hbefore, hback⟩ := exists_code h
    refine ⟨before.length, (before ++ front).length, marginOf before.length (before ++ row :: after), ?_, ?_, ?_⟩
    · rw [hlines, List.append_assoc]
      exact isLeast_contentIn hrow hbefore
    · rw [hlines, hcode, ← List.append_assoc, List.append_assoc]
      exact isGreatest_contentIn hlast hback
    · rw [List.length_append]
      exact dedents_extract hlines hcode hrow hlast hbefore hback

/-- Code between blank lines whose margin is one ideographic space, of three bytes. -/
def wideBlock : Text :=
  ['\n', '\u3000', '\u2003', 'a', '\n', '\n', '\u3000', ' ', 'b', ' ', '\n', ' ']

theorem extract_dedents_wide_blanks :
    (∃ row ∈ lines wideBlock, allBlank row = false) ∧ extract wideBlock = ['\u2003', 'a', '\n', '\n', ' ', 'b'] ∧
      Margin.extract? (fun _ => none) wideBlock = some ['\u2003', 'a', '\n', '\n', ' ', 'b'] ∧
      ∃ first last margin, IsLeast (contentIn (lines wideBlock)) first ∧
        IsGreatest (contentIn (lines wideBlock)) last ∧
        Dedents (lines wideBlock) first last margin [['\u2003', 'a'], [], [' ', 'b']] := by
  have hcontent : ∃ row ∈ lines wideBlock, allBlank row = false := by decide
  have hextract : extract wideBlock = ['\u2003', 'a', '\n', '\n', ' ', 'b'] := by decide
  have hrows : rows (extract wideBlock) = [['\u2003', 'a'], [], [' ', 'b']] := by
    rw [hextract]
    decide
  obtain ⟨hbytes, -, hdedents⟩ := extract_dedents wideBlock
  rw [hrows] at hdedents
  rw [hextract] at hbytes
  exact ⟨hcontent, hextract, hbytes _, hdedents hcontent⟩

end Snippet

end LintFixture.Fixture
