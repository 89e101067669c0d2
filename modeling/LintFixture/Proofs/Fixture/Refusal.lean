import LintFixture.Proofs.Fixture.Writer
import LintFixture.Proofs.Grid.Walk

/-!
# Which suites are not written

The writer looks at a region only to find the line it starts on, and only where lines
are listed. So a suite is refused exactly for a case all of whose violations have a place
and one of whose regions starts behind the source, and for the first such case
(`Suite.write_eq_error_iff`). A region that only ends behind the source is written.
-/

namespace LintFixture.Fixture

open Grid

namespace Location

variable {source : Text} {location : Location}

/-- An exact region that does not lie within the source. -/
def Leaves (source : Text) (location : Location) : Prop :=
  ∃ region, location = .exact region ∧ source.length < region.stop

/-- An exact region that starts behind the source. -/
def Strays (source : Text) (location : Location) : Prop :=
  ∃ region, location = .exact region ∧ source.length < region.start

theorem Strays.leaves (h : location.Strays source) : location.Leaves source := by
  obtain ⟨region, heq, hlt⟩ := h
  exact ⟨region, heq, Nat.lt_of_lt_of_le hlt region.start_le_stop⟩

/-- Only a region that starts behind the source has no line. -/
theorem lineIn_eq_error_iff {cause : CoordError} :
    location.lineIn source = .error cause ↔
      ∃ region, location = .exact region ∧ source.length < region.start ∧
        cause = .offsetBeyond region.start source.length := by
  cases location with
  | anywhere => simp [lineIn]
  | line number region => simp [lineIn]
  | exact region =>
    simp only [lineIn, positionAt, exact.injEq, exists_eq_left', ← positionFrom_eq_none_iff (p := .origin)]
    cases positionFrom .origin source region.start with
    | none => simp [bind, Except.bind, eq_comm]
    | some p => simp [bind, Except.bind, pure, Except.pure]

theorem exists_lineIn_iff : (∃ line, location.lineIn source = .ok line) ↔ ¬ location.Strays source := by
  cases h : location.lineIn source with
  | ok line =>
    refine iff_of_true ⟨line, rfl⟩ ?_
    rintro ⟨region, hregion, hlt⟩
    cases h.symm.trans (lineIn_eq_error_iff.2 ⟨region, hregion, hlt, rfl⟩)
  | error cause =>
    obtain ⟨region, hregion, hlt, -⟩ := lineIn_eq_error_iff.1 h
    exact iff_of_false nofun fun hno => hno ⟨region, hregion, hlt⟩

end Location

/-! ## One case -/

namespace Case

variable {c : Case} {cause : CoordError}

/-- Lines are to be listed for the case, and `cause` tells the first of its regions that starts behind the source. -/
structure IsRefused (c : Case) (cause : CoordError) : Prop where
  placed : ∀ x ∈ c.expectations, x.location.isPlaced = true
  first : ∃ before x after region, c.expectations = before ++ x :: after ∧
    (∀ y ∈ before, ¬ y.location.Strays c.source) ∧ x.location = .exact region ∧ c.source.length < region.start ∧
    cause = .offsetBeyond region.start c.source.length

theorem isRefused_iff :
    c.IsRefused cause ↔ (∀ x ∈ c.expectations, x.location.isPlaced = true) ∧
      c.expectations.mapM (·.location.lineIn c.source) = .error cause := by
  simp only [mapM_eq_error_iff, Location.exists_lineIn_iff, Location.lineIn_eq_error_iff]
  constructor
  · rintro ⟨hplaced, before, x, after, region, hsplit, hbefore, hx⟩
    exact ⟨hplaced, before, x, after, hsplit, hbefore, region, hx⟩
  · rintro ⟨hplaced, before, x, after, hsplit, hbefore, region, hx⟩
    exact ⟨hplaced, before, x, after, region, hsplit, hbefore, hx⟩

theorem listedLines_eq_error_iff : c.listedLines = .error cause ↔ c.IsRefused cause := by
  rw [isRefused_iff, listedLines]
  split
  · next hnone =>
    -- no lines are listed
    refine iff_of_false nofun ?_
    rintro ⟨hplaced, hmap⟩
    rw [Bool.or_eq_true, List.isEmpty_iff, Bool.not_eq_true', ← Bool.not_eq_true, List.all_eq_true] at hnone
    rcases hnone with hnil | hsome
    · rw [hnil] at hmap
      cases hmap
    · exact hsome hplaced
  · next hlisted =>
    have hplaced : ∀ x ∈ c.expectations, x.location.isPlaced = true := by
      rw [Bool.or_eq_true, not_or, Bool.not_eq_true', Bool.not_eq_false, List.all_eq_true] at hlisted
      exact hlisted.2
    rw [and_iff_right hplaced]
    cases c.expectations.mapM (·.location.lineIn c.source) with
    | ok lines => exact iff_of_false nofun nofun
    | error own => simp [bind, Except.bind]

/-- A case is refused when all its violations have a place and some region starts behind the source. -/
theorem exists_isRefused_iff :
    (∃ cause, c.IsRefused cause) ↔
      (∀ x ∈ c.expectations, x.location.isPlaced = true) ∧ ∃ x ∈ c.expectations, x.location.Strays c.source := by
  simp only [isRefused_iff, exists_and_left]
  refine and_congr_right fun _ => ?_
  cases hmap : c.expectations.mapM (·.location.lineIn c.source) with
  | error own =>
    obtain ⟨before, x, after, hsplit, -, hx⟩ := mapM_eq_error_iff.1 hmap
    obtain ⟨region, hregion, hlt, -⟩ := Location.lineIn_eq_error_iff.1 hx
    exact iff_of_true ⟨own, rfl⟩ ⟨x, by simp [hsplit], region, hregion, hlt⟩
  | ok lines =>
    refine iff_of_false nofun ?_
    rintro ⟨x, hx, hstrays⟩
    obtain ⟨line, -, hline⟩ := exists_of_mem_right (mapM_eq_ok_iff.1 hmap).flip hx
    exact Location.exists_lineIn_iff.1 ⟨line, hline⟩ hstrays

theorem sheet_eq_error_iff {index : Nat} {e : MisplacedRegion} :
    c.sheet index = .error e ↔ c.IsRefused e.cause ∧ e.index = index := by
  rw [← listedLines_eq_error_iff, sheet]
  cases c.listedLines with
  | ok lines => simp
  | error own =>
    obtain ⟨number, cause⟩ := e
    simp [and_comm, eq_comm]

theorem exists_sheet_iff {index : Nat} : (∃ entry, c.sheet index = .ok entry) ↔ ∀ cause, ¬ c.IsRefused cause := by
  simp only [← listedLines_eq_error_iff, sheet]
  cases c.listedLines <;> simp

end Case

/-! ## Main statement -/

namespace Suite

variable {s : Suite} {e : MisplacedRegion}

/-- A suite is refused for the first of its cases that is, and told by its position. -/
theorem write_eq_error_iff :
    s.write = .error e ↔ ∃ before c after, s.cases = before ++ c :: after ∧
      (∀ b ∈ before, ∀ cause, ¬ b.IsRefused cause) ∧ c.IsRefused e.cause ∧ e.index = before.length := by
  have hwrite : s.write = .error e ↔ (s.cases.zipIdx.mapM fun p => p.1.sheet p.2) = .error e := by
    rw [write, sheet_eq]
    cases s.cases.zipIdx.mapM fun p => p.1.sheet p.2 with
    | ok entries =>
      constructor
      · intro h
        cases h
      · intro h
        cases h
    | error own => simp [bind, Except.bind, Except.map]
  have hbefore : ∀ before : List Case, (∀ p ∈ before.zipIdx, ∀ cause, ¬ p.1.IsRefused cause) ↔
      ∀ b ∈ before, ∀ cause, ¬ b.IsRefused cause := by
    intro before
    conv_rhs => rw [← List.zipIdx_map_fst 0 before, List.forall_mem_map]
  rw [hwrite, mapM_zipIdx_eq_error_iff]
  simp only [Case.sheet_eq_error_iff, Case.exists_sheet_iff, Nat.zero_add, hbefore]

theorem exists_write_error_iff : (∃ e, s.write = .error e) ↔ ∃ c ∈ s.cases, ∃ cause, c.IsRefused cause := by
  constructor
  · rintro ⟨e, he⟩
    obtain ⟨before, c, after, hsplit, -, hc, -⟩ := write_eq_error_iff.1 he
    exact ⟨c, by simp [hsplit], e.cause, hc⟩
  · rintro ⟨c, hmem, cause, hc⟩
    cases hw : s.write with
    | error e => exact ⟨e, rfl⟩
    | ok x =>
      -- what is written has an entry for this case too
      obtain ⟨entries, hentries, -⟩ := write_eq_ok_iff.1 hw
      obtain ⟨entry, -, lines, hlines, -⟩ := exists_of_mem_right hentries.flip hmem
      cases hlines.symm.trans (Case.listedLines_eq_error_iff.2 hc)

/-- When a suite is refused, and for what. -/
structure Refusal (s : Suite) : Prop where
  /-- All violations of some case have a place, and one of its regions starts behind the source. -/
  exists_iff : (∃ e, s.write = .error e) ↔ ∃ c ∈ s.cases,
    (∀ x ∈ c.expectations, x.location.isPlaced = true) ∧ ∃ x ∈ c.expectations, x.location.Strays c.source
  /-- The first such case is told, and its first such region. -/
  first : ∀ e, s.write = .error e ↔ ∃ before c after, s.cases = before ++ c :: after ∧
    (∀ b ∈ before, ∀ cause, ¬ b.IsRefused cause) ∧ c.IsRefused e.cause ∧ e.index = before.length
  /-- So no case is refused whose regions all lie within its source. -/
  leaves : ∀ e, s.write = .error e → ∃ c, s.cases[e.index]? = some c ∧
    ∃ x ∈ c.expectations, x.location.Leaves c.source

theorem refusal (s : Suite) : s.Refusal where
  exists_iff := by simp only [exists_write_error_iff, Case.exists_isRefused_iff]
  first _ := write_eq_error_iff
  leaves := by
    intro e he
    obtain ⟨before, c, after, hsplit, -, hc, hindex⟩ := write_eq_error_iff.1 he
    obtain ⟨-, x, hx, hstrays⟩ := Case.exists_isRefused_iff.1 ⟨e.cause, hc⟩
    exact ⟨c, by simp [hsplit, hindex], x, hx, hstrays.leaves⟩

/-- A case of one character with a violation on the one behind it. -/
def overlong : Case where
  description := ['d']
  source := ['a']
  expectations := [⟨none, .exact ⟨1, 2, Nat.le_succ 1⟩⟩]

/-- A region that ends behind the source does not lie within it, and is written all the same. -/
theorem not_refusal_overlong :
    ¬ ((∃ e, write ⟨[overlong]⟩ = .error e) ↔
      ∃ c ∈ [overlong], ∃ x ∈ c.expectations, x.location.Leaves c.source) := by
  have hwritten : ((write ⟨[overlong]⟩).toOption).isSome = true := by decide +kernel
  obtain ⟨x, hx⟩ := Option.isSome_iff_exists.1 hwritten
  rw [toOption_eq_some_iff] at hx
  intro hiff
  obtain ⟨e, he⟩ := hiff.2 ⟨overlong, by simp, ⟨none, .exact ⟨1, 2, Nat.le_succ 1⟩⟩, by simp [overlong], _, rfl,
    by decide⟩
  cases hx.symm.trans he

end Suite

end LintFixture.Fixture
