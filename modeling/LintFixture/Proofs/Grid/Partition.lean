import LintFixture.Proofs.Grid.Lines

/-!
# The lines partition a text

The regions of the lines lie side by side and cover the text (`partitioned`): what
they cut out is, one after the other, the text again, each piece but the last ends
with its only line feed, and an offset lies in the region of the line that its
position is on (`contains_iff_of_regionOfLine`).
-/

namespace LintFixture.Grid

variable {t : Text} {l m n : Nat} {p : Position} {r s : Region}

/-! ## The line of an offset -/

theorem line_positionFrom {p q : Position} {n : Nat} (h : positionFrom p t n = some q) :
    q.line = p.line + (t.take n).count '\n' := by
  induction t generalizing p n with
  | nil =>
    cases n with
    | zero => simp [← Option.some.inj h]
    | succ n => cases h
  | cons c rest ih =>
    cases n with
    | zero => simp [← Option.some.inj h]
    | succ n =>
      have hadvance := p.line_advance_add_count c rest
      rw [List.count_cons] at hadvance
      rw [ih h, List.take_succ_cons, List.count_cons]
      omega

/-- The line of an offset is told by the line feeds before it. -/
theorem line_eq_count (h : positionAt t n = .ok p) : p.line = (t.take n).count '\n' + 1 := by
  rw [line_positionFrom (positionAt_eq_ok_iff.1 h), Position.origin, Nat.add_comm]

/-- The first column of a line parts the offsets on earlier lines from all others. -/
theorem line_lt_iff (hstart : offsetAt t ⟨l, 1⟩ = .ok m) (hp : positionAt t n = .ok p) : p.line < l ↔ n < m := by
  have hat := positionAt_eq_ok_iff.1 hp
  constructor
  · intro hline
    by_contra hle
    obtain ⟨q, hq, rfl, -⟩ := cell_of_offsetAt hstart
    have hqp := positionAt_mono hq hp (Nat.le_of_not_lt hle)
    rw [Position.le_iff] at hqp
    omega
  · intro hlt
    by_contra hle
    -- the walk to the position is no longer than its offset, and no shorter than that to the line
    have hlp : (⟨l, 1⟩ : Position) ≤ p := by
      have hcolumn := column_pos_of_positionFrom hat Nat.one_pos
      rw [Position.le_iff]
      simp only
      omega
    have hmono := distance?_mono hlp (offsetAt_eq_ok_iff.1 hstart).2.2 (distance?_positionFrom hat)
    split at hmono <;> omega

/-! ## Where a region starts and stops -/

theorem offsetAt_eq_error {e : CoordError} (h : offsetAt t p = .error e) : e = .noSuchPosition p := by
  unfold offsetAt at h
  split at h
  · exact (Except.error.inj h).symm
  · split at h
    · cases h
    · exact (Except.error.inj h).symm

/-- The only regions refused are those of lines that the text does not have. -/
theorem regionOfLine_eq_error {e : CoordError} (h : regionOfLine t l = .error e) : e = .noSuchPosition ⟨l, 1⟩ := by
  cases hstart : offsetAt t ⟨l, 1⟩ with
  | error own =>
    obtain rfl := offsetAt_eq_error hstart
    rw [regionOfLine, hstart] at h
    exact (Except.error.inj h).symm
  | ok m =>
    obtain ⟨hpos, hle⟩ := line_of_offsetAt hstart
    obtain ⟨r, hr⟩ := exists_regionOfLine hpos hle
    cases hr.symm.trans h

theorem exists_regionOfLine_iff : (∃ r, regionOfLine t l = .ok r) ↔ 1 ≤ l ∧ l ≤ countLines t :=
  ⟨fun ⟨_, h⟩ => le_countLines_of_regionOfLine h, fun h => exists_regionOfLine h.1 h.2⟩

theorem stop_eq_start_of_regionOfLine (hr : regionOfLine t l = .ok r) (hs : regionOfLine t (l + 1) = .ok s) :
    r.stop = s.start := by
  have hnext := (bounds_of_regionOfLine hs).1
  obtain ⟨start, hstart, h⟩ := bind_eq_ok_iff.1 hr
  simp only [hnext, Region.between] at h
  split at h
  · obtain rfl := Except.ok.inj h
    rfl
  · cases h

theorem stop_of_regionOfLine_last (h : regionOfLine t (countLines t) = .ok r) : r.stop = t.length := by
  obtain ⟨-, hnext | hstop⟩ := ends_of_regionOfLine h
  · have := (line_of_offsetAt hnext).2
    omega
  · exact hstop

theorem start_of_regionOfLine_first (h : regionOfLine t 1 = .ok r) : r.start = 0 := by
  have horigin : positionAt t 0 = .ok .origin := by simp [positionAt]
  have hiff := line_lt_iff (bounds_of_regionOfLine h).1 horigin
  simp only [Position.origin] at hiff
  omega

/-- A line is the last one, or its region ends where the next one starts. -/
theorem last_or_next (h : regionOfLine t l = .ok r) :
    l = countLines t ∧ r.stop = t.length ∨
      l < countLines t ∧ ∃ s, regionOfLine t (l + 1) = .ok s ∧ r.stop = s.start := by
  obtain ⟨hpos, hle⟩ := le_countLines_of_regionOfLine h
  rcases Nat.eq_or_lt_of_le hle with rfl | hlt
  · exact .inl ⟨rfl, stop_of_regionOfLine_last h⟩
  · obtain ⟨s, hs⟩ := exists_regionOfLine (Nat.succ_pos l) hlt
    exact .inr ⟨hlt, s, hs, stop_eq_start_of_regionOfLine h hs⟩

/-- An offset lies in the region of its own line and in no other. -/
theorem contains_iff_of_regionOfLine (hr : regionOfLine t l = .ok r) (hn : n < t.length) (hp : positionAt t n = .ok p) :
    r.contains n = true ↔ p.line = l := by
  have hstart := line_lt_iff (bounds_of_regionOfLine hr).1 hp
  simp only [Region.contains, Bool.and_eq_true, decide_eq_true_eq]
  rcases last_or_next hr with ⟨rfl, hstop⟩ | ⟨-, s, hs, hstop⟩
  · have hline := (line_positionAt hp).2
    omega
  · have hnext := line_lt_iff (bounds_of_regionOfLine hs).1 hp
    omega

/-! ## What the regions cut out -/

/-- The text of a region that ends inside the text. -/
def Region.cut (r : Region) (t : Text) : Text := (t.drop r.start).take (r.stop - r.start)

theorem Region.slice?_eq (h : r.stop ≤ t.length) : t.slice? r.start r.stop = some (r.cut t) :=
  if_pos ⟨r.start_le_stop, h⟩

theorem Region.take_append_cut (r : Region) (t : Text) : t.take r.start ++ r.cut t = t.take r.stop := by
  rw [cut, ← List.take_add, Nat.add_sub_cancel' r.start_le_stop]

/-- The line feeds of a region part the line it starts on from the one that follows it. -/
theorem line_add_count_cut {q : Position} (r : Region) (hp : positionAt t r.start = .ok p)
    (hq : positionAt t r.stop = .ok q) : p.line + (r.cut t).count '\n' = q.line := by
  have hsum := congrArg (List.count '\n') (r.take_append_cut t)
  rw [List.count_append] at hsum
  rw [line_eq_count hp, line_eq_count hq]
  omega

/-- Less its last character, the region of a line that is not the last one stays on the line. -/
theorem not_mem_cut_dropLast (hr : regionOfLine t l = .ok r) (hs : regionOfLine t (l + 1) = .ok s)
    {front : Region} (hfront : front.start = r.start) (hstop : front.stop < s.start) : '\n' ∉ front.cut t := by
  have hle := Nat.le_trans s.start_le_stop (bounds_of_regionOfLine hs).2
  obtain ⟨p, hp⟩ := exists_positionFrom .origin (t := t) (n := front.stop) (by omega)
  rw [← positionAt_eq_ok_iff] at hp
  have hline := (line_lt_iff (bounds_of_regionOfLine hs).1 hp).2 hstop
  have hcount := line_add_count_cut front (hfront ▸ positionAt_start_of_regionOfLine hr) hp
  simp only at hcount
  exact List.count_eq_zero.1 (by omega)

/-- The text of a line: its content and, but for the last line, a line feed. -/
theorem cut_of_regionOfLine (h : regionOfLine t l = .ok r) :
    ∃ content, '\n' ∉ content ∧ r.cut t = content ++ if l = countLines t then [] else ['\n'] := by
  have hstart := positionAt_start_of_regionOfLine h
  rcases last_or_next h with ⟨rfl, hstop⟩ | ⟨hlt, s, hs, hstop⟩
  · obtain ⟨p, hp⟩ := exists_positionFrom .origin (Nat.le_of_eq hstop)
    rw [← positionAt_eq_ok_iff] at hp
    have hline := line_eq_count hp
    have hcount := line_add_count_cut r hstart hp
    rw [hline, hstop, List.take_length] at hcount
    exact ⟨r.cut t, List.count_eq_zero.1 (by simpa [countLines] using hcount), by simp⟩
  · have hlt' := start_lt_start_of_regionOfLine h hs (Nat.lt_succ_self l)
    have hcount := line_add_count_cut r hstart (hstop ▸ positionAt_start_of_regionOfLine hs)
    let front : Region := ⟨r.start, r.stop - 1, by omega⟩
    have hfront : '\n' ∉ front.cut t := not_mem_cut_dropLast h hs rfl (by simp only [front]; omega)
    have hlength : r.stop - 1 - r.start < (t.drop r.start).length := by
      have := (bounds_of_regionOfLine h).2
      rw [List.length_drop]
      omega
    obtain ⟨c, hcut⟩ : ∃ c, r.cut t = front.cut t ++ [c] := by
      rw [Region.cut, show r.stop - r.start = r.stop - 1 - r.start + 1 by omega,
        List.take_succ_eq_append_getElem hlength]
      exact ⟨_, rfl⟩
    -- the one line feed is not among the others, so it is the last character
    rw [hcut, List.count_append, List.count_eq_zero.2 hfront, List.count_singleton] at hcount
    refine ⟨front.cut t, hfront, ?_⟩
    rw [hcut, if_neg (Nat.ne_of_lt hlt)]
    by_cases hc : c = '\n'
    · rw [hc]
    · simp [hc] at hcount

/-- The region of a line cuts this text out. -/
def CutsOut (t : Text) (l : Nat) (part : Text) : Prop :=
  ∃ r, regionOfLine t l = .ok r ∧ t.slice? r.start r.stop = some part

theorem cutsOut_of_regionOfLine (h : regionOfLine t l = .ok r) : CutsOut t l (r.cut t) :=
  ⟨r, h, r.slice?_eq (bounds_of_regionOfLine h).2⟩

/-- What the first lines cut out is the text up to the end of the last of them. -/
theorem exists_cutsOut (hr : regionOfLine t (n + 1) = .ok r) :
    ∃ parts, List.Forall₂ (CutsOut t) (List.range' 1 (n + 1)) parts ∧ parts.flatten = t.take r.stop := by
  induction n generalizing r with
  | zero =>
    refine ⟨[r.cut t], .cons (cutsOut_of_regionOfLine hr) .nil, ?_⟩
    rw [List.flatten_singleton, ← r.take_append_cut, start_of_regionOfLine_first hr]
    rfl
  | succ n ih =>
    obtain ⟨s, hs⟩ := exists_regionOfLine (Nat.succ_pos n) (Nat.le_of_succ_le (le_countLines_of_regionOfLine hr).2)
    obtain ⟨parts, hparts, hflatten⟩ := ih hs
    refine ⟨parts ++ [r.cut t], ?_, ?_⟩
    · rw [List.range'_1_concat, Nat.add_comm 1]
      exact List.rel_append hparts (.cons (cutsOut_of_regionOfLine hr) .nil)
    · rw [List.flatten_append, hflatten, List.flatten_singleton, stop_eq_start_of_regionOfLine hs hr, r.take_append_cut]

/-! ## Main statement -/

/-- The regions of its lines cut a text into pieces, one for each line. -/
structure Partitioned (t : Text) : Prop where
  /-- Only the lines of the text have a region. -/
  exists_iff : ∀ l, (∃ r, regionOfLine t l = .ok r) ↔ 1 ≤ l ∧ l ≤ countLines t
  /-- A line is refused because it has no first column, never because its region is reversed. -/
  refused : ∀ l e, regionOfLine t l = .error e → e = .noSuchPosition ⟨l, 1⟩
  first : ∀ r, regionOfLine t 1 = .ok r → r.start = 0
  meets : ∀ l r s, regionOfLine t l = .ok r → regionOfLine t (l + 1) = .ok s → r.stop = s.start
  last : ∀ r, regionOfLine t (countLines t) = .ok r → r.stop = t.length
  ascending : ∀ l m r s, regionOfLine t l = .ok r → regionOfLine t m = .ok s → l < m → r.start < s.start
  /-- What the lines cut out is the whole text. -/
  whole : ∃ parts, List.Forall₂ (CutsOut t) (List.range' 1 (countLines t)) parts ∧ parts.flatten = t
  /-- Each line but the last ends with its only line feed, and the last one has none. -/
  terminated : ∀ l part, CutsOut t l part →
    ∃ content, '\n' ∉ content ∧ part = content ++ if l = countLines t then [] else ['\n']
  /-- An offset lies in the region of the line that its position is on. -/
  line : ∀ n < t.length, ∃ p, positionAt t n = .ok p ∧
    ∀ l r, regionOfLine t l = .ok r → (r.contains n = true ↔ p.line = l)

/-- The lines of every text partition it. -/
theorem partitioned (t : Text) : Partitioned t where
  exists_iff _ := exists_regionOfLine_iff
  refused _ _ := regionOfLine_eq_error
  first _ := start_of_regionOfLine_first
  meets _ _ _ := stop_eq_start_of_regionOfLine
  last _ := stop_of_regionOfLine_last
  ascending _ _ _ _ := start_lt_start_of_regionOfLine
  whole := by
    obtain ⟨r, hr⟩ := exists_regionOfLine (t := t) (Nat.succ_pos (t.count '\n')) (Nat.le_refl _)
    obtain ⟨parts, hparts, hflatten⟩ := exists_cutsOut hr
    exact ⟨parts, hparts, by rw [hflatten, stop_of_regionOfLine_last hr, List.take_length]⟩
  terminated := by
    rintro l part ⟨r, hr, hslice⟩
    rw [r.slice?_eq (bounds_of_regionOfLine hr).2] at hslice
    obtain rfl := Option.some.inj hslice
    exact cut_of_regionOfLine hr
  line := by
    intro n hn
    obtain ⟨p, hp⟩ := exists_positionFrom .origin (Nat.le_of_lt hn)
    rw [← positionAt_eq_ok_iff] at hp
    exact ⟨p, hp, fun l r hr => contains_iff_of_regionOfLine hr hn hp⟩

end LintFixture.Grid
