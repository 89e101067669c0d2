import LintFixture.Fixture.Verdict
import LintFixture.Proofs.Fixture.Regular
import LintFixture.Proofs.Rearrangement

/-!
# Verdicts and matchings

Findings pass exactly when, both sides in source order, each is admitted by the
expectation it stands beside (`judge_pass_iff`). What passes is therefore matched
one to one. The expectations of a fixture stand on whole lines, and these regions
are ordered as the findings are, so no other matching is missed when no message is
expected (`judge_matches`).
-/

namespace LintFixture.Fixture

open Grid

/-! ## Source order -/

namespace Finding

theorem precedes_iff {f g : Finding} :
    f.precedes g = true ↔ f.line < g.line ∨ (f.line = g.line ∧ f.region ≤ g.region) := by
  simp [precedes]

theorem precedes_trans (f g h : Finding) (hfg : f.precedes g = true) (hgh : g.precedes h = true) :
    f.precedes h = true := by
  rw [precedes_iff] at *
  rcases hfg with hfg | ⟨hfg, hle⟩ <;> rcases hgh with hgh | ⟨hgh, hle'⟩
  · exact .inl (hfg.trans hgh)
  · exact .inl (hgh ▸ hfg)
  · exact .inl (hfg ▸ hgh)
  · exact .inr ⟨hfg.trans hgh, Region.le_trans hle hle'⟩

theorem precedes_total (f g : Finding) : (f.precedes g || g.precedes f) = true := by
  rw [Bool.or_eq_true, precedes_iff, precedes_iff]
  rcases Nat.lt_trichotomy f.line g.line with h | h | h
  · exact .inl (.inl h)
  · exact (f.region.le_total g.region).imp (fun hle => .inr ⟨h, hle⟩) fun hle => .inr ⟨h.symm, hle⟩
  · exact .inr (.inl h)

end Finding

namespace Expectation

theorem precedes_iff {x y : Expectation} :
    x.precedes y = true ↔
      ∀ r, x.location.region? = some r → ∃ s, y.location.region? = some s ∧ r ≤ s := by
  unfold precedes
  cases x.location.region? <;> cases y.location.region? <;> simp

theorem precedes_trans (x y z : Expectation) (hxy : x.precedes y = true) (hyz : y.precedes z = true) :
    x.precedes z = true := by
  rw [precedes_iff] at *
  intro r hr
  obtain ⟨s, hs, hrs⟩ := hxy r hr
  obtain ⟨u, hu, hsu⟩ := hyz s hs
  exact ⟨u, hu, Region.le_trans hrs hsu⟩

theorem precedes_total (x y : Expectation) : (x.precedes y || y.precedes x) = true := by
  rw [Bool.or_eq_true, precedes_iff, precedes_iff]
  cases hx : x.location.region? with
  | none => exact .inl fun r hr => by cases hr
  | some r =>
    cases hy : y.location.region? with
    | none => exact .inr fun s hs => by cases hs
    | some s => simpa using r.le_total s

end Expectation

/-! ## Verdicts -/

/-- A finding is what an expectation asks for. -/
structure Expectation.Admits (x : Expectation) (f : Finding) : Prop where
  region : ∀ r, x.location.region? = some r → r.start ≤ f.region.start ∧ f.region.start < r.stop
  line : ∀ l, x.location.line? = some l → f.line = l
  message : ∀ expected actual, x.message = some expected → f.message = some actual → actual = expected

theorem Expectation.placed_iff {x : Expectation} {f : Finding} :
    x.placed f = true ↔
      (∀ r, x.location.region? = some r → r.start ≤ f.region.start ∧ f.region.start < r.stop) ∧
      ∀ l, x.location.line? = some l → f.line = l := by
  unfold placed
  cases x.location.region? <;> cases x.location.line? <;> simp [Region.contains, @eq_comm _ f.line]

theorem Expectation.discrepancy?_eq_none_iff {x : Expectation} {f : Finding} :
    x.discrepancy? f = none ↔ x.Admits f := by
  have hmessage : x.Admits f ↔ x.placed f = true ∧
      ∀ expected actual, x.message = some expected → f.message = some actual → actual = expected := by
    rw [placed_iff]
    exact ⟨fun h => ⟨⟨h.region, h.line⟩, h.message⟩, fun h => ⟨h.1.1, h.1.2, h.2⟩⟩
  rw [hmessage, discrepancy?]
  split
  · next hplaced =>
    cases x.message <;> cases f.message <;> simp [hplaced, eq_comm]
  · next hplaced => simp [hplaced]

/-- Findings can be matched one to one with the expectations of a case. -/
def Case.Matches (c : Case) (findings : List Finding) : Prop :=
  Paired Expectation.Admits c.expectations findings

namespace Case

variable {c : Case} {findings : List Finding}

theorem discrepancy?_eq_none_iff :
    c.discrepancy? findings = none ↔
      List.Forall₂ Expectation.Admits (c.expectations.mergeSort Expectation.precedes)
        (findings.mergeSort Finding.precedes) := by
  unfold discrepancy?
  rw [List.forall₂_iff_zip, List.length_mergeSort, List.length_mergeSort]
  split
  · next h => simp [h]
  · next h =>
    rw [List.findSome?_eq_none_iff, not_not.1 h]
    simp [Expectation.discrepancy?_eq_none_iff]

theorem judge_pass_iff :
    (c.judge findings).status = .pass ↔
      List.Forall₂ Expectation.Admits (c.expectations.mergeSort Expectation.precedes)
        (findings.mergeSort Finding.precedes) := by
  rw [← discrepancy?_eq_none_iff, judge]
  cases c.discrepancy? findings with
  | none => simp [Verdict.pass]
  | some d => simp [Verdict.fail]

/-- What passes is matched: the pairs of the two sides in source order. -/
theorem matches_of_judge_pass (h : (c.judge findings).status = .pass) : c.Matches findings := by
  have hsorted : Paired Expectation.Admits (c.expectations.mergeSort Expectation.precedes)
      (findings.mergeSort Finding.precedes) := paired_iff.2 ⟨_, judge_pass_iff.1 h, .refl _⟩
  exact hsorted.perm (List.mergeSort_perm _ _).symm (List.mergeSort_perm _ _)

end Case

/-! ## Expectations on lines -/

/-- The expectation is for a whole line of the code. -/
def Expectation.StandsOn (source : Text) (x : Expectation) (line : Nat) : Prop :=
  ∃ region, regionOfLine source line = .ok region ∧ x.location = .line line region

/-- The expectations have no locations, or each is for a line. -/
def Case.ByLine (c : Case) : Prop :=
  (∀ x ∈ c.expectations, x.location = .anywhere) ∨ ∀ x ∈ c.expectations, ∃ line, x.StandsOn c.source line

theorem Suite.byLine_of_parse {t : Text} {s : Suite} {c : Case} (h : parse t = .ok s) (hc : c ∈ s.cases) :
    c.ByLine := by
  obtain ⟨hregular, -, hexact⟩ := regular_of_parse h c hc
  refine hregular.allLocations.imp_right fun hall x hx => ?_
  have hstands := hall x hx
  cases hlocation : x.location with
  | anywhere =>
    rw [hlocation] at hstands
    exact hstands.elim
  | line line region =>
    rw [hlocation] at hstands
    exact ⟨line, region, hstands, hlocation⟩
  | exact region => exact (hexact x hx region hlocation).elim

namespace Expectation

variable {source : Text} {x y : Expectation} {f : Finding} {l m : Nat}

theorem StandsOn.location_eq (hx : x.StandsOn source l) (hy : y.StandsOn source l) :
    x.location = y.location := by
  obtain ⟨region, hregion, hx⟩ := hx
  obtain ⟨region', hregion', hy⟩ := hy
  rw [hx, hy, Except.ok.inj (hregion.symm.trans hregion')]

/-- Expectations on lines come in the order of the lines. -/
theorem StandsOn.precedes_iff (hx : x.StandsOn source l) (hy : y.StandsOn source m) :
    x.precedes y = true ↔ l ≤ m := by
  obtain ⟨region, hregion, hx⟩ := hx
  obtain ⟨region', hregion', hy⟩ := hy
  simp [precedes, hx, hy, Location.region?, regionOfLine_le_iff hregion hregion']

theorem StandsOn.line_eq (hx : x.StandsOn source l) (h : x.Admits f) : f.line = l := by
  obtain ⟨region, -, hlocation⟩ := hx
  exact h.line l (by rw [hlocation]; rfl)

theorem Admits.of_location_eq (h : x.Admits f) (hl : y.location = x.location) (hm : y.message = none) :
    y.Admits f where
  region := hl ▸ h.region
  line := hl ▸ h.line
  message expected actual he := by cases hm.symm.trans he

theorem admits_anywhere (hl : x.location = .anywhere) (hm : x.message = none) : x.Admits f where
  region r hr := by rw [hl] at hr; cases hr
  line l hr := by rw [hl] at hr; cases hr
  message expected actual he := by cases hm.symm.trans he

/-- Of two lists in order, one a match for the other, each finding is on the line it is expected on. -/
theorem forall₂_standsOn {xs : List Expectation} {fs gs : List Finding}
    (hstands : ∀ x ∈ xs, ∃ line, x.StandsOn source line) (hx : xs.Pairwise fun x y => x.precedes y = true)
    (hg : gs.Pairwise fun f g => f.precedes g = true) (h : List.Forall₂ Admits xs fs) (hperm : fs.Perm gs) :
    List.Forall₂ (fun x g => x.StandsOn source g.line) xs gs := by
  have hlines : List.Forall₂ (StandsOn source) xs (fs.map Finding.line) := by
    rw [List.forall₂_map_right_iff]
    refine ((List.forall₂_and_left _ _).2 ⟨hstands, h⟩).imp ?_
    rintro x f ⟨⟨line, hline⟩, hadmits⟩
    rwa [hline.line_eq hadmits]
  -- both sides name the same lines in the same order
  have hfs : (fs.map Finding.line).Pairwise (· ≤ ·) :=
    pairwise_of_forall₂ (fun hx hy hle => (hx.precedes_iff hy).1 hle) hlines hx
  have hgs : (gs.map Finding.line).Pairwise (· ≤ ·) := by
    refine List.pairwise_map.2 (hg.imp fun hle => ?_)
    rw [Finding.precedes_iff] at hle
    omega
  have heq : fs.map Finding.line = gs.map Finding.line :=
    (hperm.map Finding.line).eq_of_pairwise (fun _ _ _ _ => Nat.le_antisymm) hfs hgs
  rwa [heq, List.forall₂_map_right_iff] at hlines

theorem forall₂_admits {xs : List Expectation} {fs gs : List Finding}
    (hstands : ∀ x ∈ xs, ∃ line, x.StandsOn source line) (hm : ∀ x ∈ xs, x.message = none)
    (hx : xs.Pairwise fun x y => x.precedes y = true) (hg : gs.Pairwise fun f g => f.precedes g = true)
    (h : List.Forall₂ Admits xs fs) (hperm : fs.Perm gs) : List.Forall₂ Admits xs gs := by
  have hlines := forall₂_standsOn hstands hx hg h hperm
  refine List.forall₂_iff_zip.2 ⟨hlines.length_eq, fun {x g} hmem => ?_⟩
  have hline := (List.forall₂_iff_zip.1 hlines).2 hmem
  -- whatever expectation the finding is matched with, it is for the same line
  obtain ⟨y, hy, hadmits⟩ := exists_of_mem_right h (hperm.mem_iff.2 (List.of_mem_zip hmem).2)
  obtain ⟨line, hother⟩ := hstands y hy
  rw [hother.line_eq hadmits] at hline
  exact hadmits.of_location_eq (hline.location_eq hother) (hm x (List.of_mem_zip hmem).1)

end Expectation

/-! ## Main statement -/

namespace Case

variable {c : Case} {findings : List Finding}

/-- Without messages, what is matched passes: only a finding's line and its place in it count. -/
theorem judge_pass_of_matches (hl : c.ByLine) (hm : ∀ x ∈ c.expectations, x.message = none)
    (h : c.Matches findings) : (c.judge findings).status = .pass := by
  have hsorted : Paired Expectation.Admits (c.expectations.mergeSort Expectation.precedes)
      (findings.mergeSort Finding.precedes) :=
    Paired.perm h (List.mergeSort_perm _ _) (List.mergeSort_perm _ _).symm
  obtain ⟨fs, hall, hperm⟩ := paired_iff.1 hsorted
  have hmem : ∀ x, x ∈ c.expectations.mergeSort Expectation.precedes ↔ x ∈ c.expectations :=
    fun x => List.mem_mergeSort
  rw [judge_pass_iff]
  rcases hl with hl | hl
  · refine List.forall₂_iff_zip.2 ⟨hall.length_eq.trans hperm.length_eq, fun {x f} hxf => ?_⟩
    have hx := (hmem x).1 (List.of_mem_zip hxf).1
    exact Expectation.admits_anywhere (hl x hx) (hm x hx)
  · refine Expectation.forall₂_admits (fun x hx => hl x ((hmem x).1 hx)) (fun x hx => hm x ((hmem x).1 hx)) ?_ ?_
      hall hperm
    · exact List.pairwise_mergeSort Expectation.precedes_trans Expectation.precedes_total _
    · exact List.pairwise_mergeSort Finding.precedes_trans Finding.precedes_total _

/-- What passes can be matched one to one with what is expected, and for a case of a fixture that expects
no message, whatever can be matched passes. -/
theorem judge_matches (c : Case) (findings : List Finding) :
    ((c.judge findings).status = .pass → c.Matches findings) ∧
    ∀ t s, Suite.parse t = .ok s → c ∈ s.cases → (∀ x ∈ c.expectations, x.message = none) →
      c.Matches findings → (c.judge findings).status = .pass := by
  refine ⟨matches_of_judge_pass, ?_⟩
  intro t s h hc hm hmatches
  exact judge_pass_of_matches (Suite.byLine_of_parse h hc) hm hmatches

/-- A fixture that lists two lines, the later one first. -/
def linesFixture : Text :=
  ["<test-data>", "<test-code>", "<description>", "d", "</description>",
    "<expected-problems>", "2", "</expected-problems>", "<expected-linenumbers>", "2,1", "</expected-linenumbers>",
    "<code>", "ab\nc", "</code>", "</test-code>", "</test-data>"].flatMap String.toList

/-- What is read from it. -/
def linesCase : Case where
  description := ['d']
  source := ['a', 'b', '\n', 'c']
  expectations := [⟨none, .line 2 ⟨3, 4, by decide⟩⟩, ⟨none, .line 1 ⟨0, 3, by decide⟩⟩]

/-- A finding on each of the lines, in order. -/
def linesFindings : List Finding := [⟨⟨0, 3, by decide⟩, 1, none⟩, ⟨⟨3, 4, by decide⟩, 2, some ['m']⟩]

theorem parse_linesFixture : Suite.parse linesFixture = .ok ⟨[linesCase]⟩ :=
  toOption_eq_some_iff.1 (by decide +kernel)

theorem judge_matches_lines :
    Suite.parse linesFixture = .ok ⟨[linesCase]⟩ ∧ linesCase.Matches linesFindings ∧
      (linesCase.judge linesFindings).status = .pass := by
  have hmatches : linesCase.Matches linesFindings := by
    refine paired_iff.2 ⟨linesFindings.reverse, .cons ?_ (.cons ?_ .nil), List.reverse_perm _⟩
    · exact Expectation.discrepancy?_eq_none_iff.1 rfl
    · exact Expectation.discrepancy?_eq_none_iff.1 rfl
  exact ⟨parse_linesFixture, hmatches, (judge_matches linesCase linesFindings).2 _ _ parse_linesFixture
    List.mem_cons_self (by decide) hmatches⟩

end Case

end LintFixture.Fixture
