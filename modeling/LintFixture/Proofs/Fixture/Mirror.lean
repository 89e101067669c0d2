import LintFixture.Proofs.Fixture.Matching

/-!
# Cases that can pass

A case of a fixture can pass exactly when the findings that mirror its expectations
pass. They do unless a line is expected in empty code: its region has no offset a
finding could start at (`judge_mirror`).
-/

namespace LintFixture.Fixture

open Grid

/-! ## Mirrored expectations -/

/-- The finding an expectation describes; without a location it stands at the start. -/
def Expectation.mirror (x : Expectation) : Finding where
  region := x.location.region?.getD (.emptyAt 0)
  line := x.location.line?.getD 1
  message := x.message

/-- The findings that the expectations of a case describe, in order. -/
def Case.mirror (c : Case) : List Finding := c.expectations.map Expectation.mirror

namespace Expectation

variable {source : Text} {x y : Expectation} {f : Finding} {l m : Nat}

/-- No finding starts in an empty region. -/
theorem Admits.start_lt_stop (h : x.Admits f) : ∀ r, x.location.region? = some r → r.start < r.stop := by
  intro r hr
  have hstart := h.region r hr
  omega

/-- An expectation admits its mirror unless its region is empty. -/
theorem admits_mirror_iff : x.Admits x.mirror ↔ ∀ r, x.location.region? = some r → r.start < r.stop := by
  refine ⟨Admits.start_lt_stop, fun h => ⟨fun r hr => ?_, fun l hl => ?_, fun expected actual he ha => ?_⟩⟩
  · simp [mirror, hr, h r hr]
  · simp [mirror, hl]
  · exact Option.some.inj (ha.symm.trans he)

theorem precedes_mirror_of_anywhere (hx : x.location = .anywhere) (hy : y.location = .anywhere) :
    x.precedes y = x.mirror.precedes y.mirror := by
  simp [precedes, Finding.precedes, mirror, hx, hy, Location.region?, Location.line?, Region.le_iff]

theorem StandsOn.precedes_mirror (hx : x.StandsOn source l) (hy : y.StandsOn source m) :
    x.precedes y = x.mirror.precedes y.mirror := by
  rw [Bool.eq_iff_iff, hx.precedes_iff hy, Finding.precedes_iff]
  obtain ⟨region, hregion, hx⟩ := hx
  obtain ⟨region', hregion', hy⟩ := hy
  simp only [mirror, hx, hy, Location.region?, Location.line?, Option.getD_some,
    regionOfLine_le_iff hregion hregion']
  omega

end Expectation

/-! ## Regions of lines -/

/-- Settled code that is not empty ends with a character that is not a line feed. -/
theorem Snippet.Settled.exists_last {source : Text} (h : Settled source) (hne : source ≠ []) :
    ∃ front last, source = front ++ [last] ∧ last ≠ '\n' := by
  obtain ⟨front, last, rfl⟩ := (List.eq_nil_or_concat source).resolve_left hne
  refine ⟨front, last, List.concat_eq_append, ?_⟩
  rintro rfl
  cases Text.trimEnd_eq_self_iff.1 h.ends '\n' (by simp)

theorem Expectation.StandsOn.start_lt_stop_iff {source : Text} {x : Expectation} {l : Nat}
    (hx : x.StandsOn source l) (h : source = [] ∨ Snippet.Settled source) :
    (∀ r, x.location.region? = some r → r.start < r.stop) ↔ source ≠ [] := by
  obtain ⟨region, hregion, hlocation⟩ := hx
  simp only [hlocation, Location.region?, Option.some.injEq, forall_eq']
  constructor
  · rintro hlt rfl
    have hstop := (bounds_of_regionOfLine hregion).2
    exact Nat.not_lt_zero _ (Nat.lt_of_lt_of_le hlt hstop)
  · intro hne
    obtain ⟨front, last, rfl, hlast⟩ := (h.resolve_left hne).exists_last hne
    exact start_lt_stop_of_regionOfLine hlast hregion

/-! ## Main statement -/

namespace Case

variable {t : Text} {s : Suite} {c : Case}

/-- Sorting keeps the mirrored findings beside their expectations. -/
theorem mergeSort_mirror (hl : c.ByLine) :
    c.mirror.mergeSort Finding.precedes =
      (c.expectations.mergeSort Expectation.precedes).map Expectation.mirror := by
  refine (List.map_mergeSort fun x hx y hy => ?_).symm
  rcases hl with hl | hl
  · exact Expectation.precedes_mirror_of_anywhere (hl x hx) (hl y hy)
  · obtain ⟨line, hline⟩ := hl x hx
    obtain ⟨line', hline'⟩ := hl y hy
    exact hline.precedes_mirror hline'

theorem judge_mirror_pass_iff (hl : c.ByLine) :
    (c.judge c.mirror).status = .pass ↔ ∀ x ∈ c.expectations, x.Admits x.mirror := by
  rw [judge_pass_iff, mergeSort_mirror hl, List.forall₂_map_right_iff, List.forall₂_same]
  simp only [List.mem_mergeSort]

theorem forall_admits_mirror_iff (hl : c.ByLine) (hs : c.source = [] ∨ Snippet.Settled c.source) :
    (∀ x ∈ c.expectations, x.Admits x.mirror) ↔
      (c.source = [] → ∀ x ∈ c.expectations, x.location = .anywhere) := by
  simp only [Expectation.admits_mirror_iff]
  rcases hl with hl | hl
  · refine iff_of_true (fun x hx => ?_) fun _ => hl
    rw [hl x hx]
    exact nofun
  · constructor
    · intro hall hempty x hx
      obtain ⟨line, hline⟩ := hl x hx
      exact ((hline.start_lt_stop_iff hs).1 (hall x hx) hempty).elim
    · intro hempty x hx
      obtain ⟨line, hline⟩ := hl x hx
      refine (hline.start_lt_stop_iff hs).2 fun hnil => ?_
      obtain ⟨region, -, hlocation⟩ := hline
      cases hlocation.symm.trans (hempty hnil x hx)

/-- The mirrored findings of a case of a fixture pass, unless lines are expected in empty code, and then
no findings pass. -/
theorem judge_mirror (h : Suite.parse t = .ok s) (hc : c ∈ s.cases) :
    ((c.judge c.mirror).status = .pass ↔ (c.source = [] → ∀ x ∈ c.expectations, x.location = .anywhere)) ∧
    ((∃ findings, (c.judge findings).status = .pass) ↔ (c.judge c.mirror).status = .pass) := by
  have hl := Suite.byLine_of_parse h hc
  refine ⟨?_, ?_, fun hpass => ⟨c.mirror, hpass⟩⟩
  · rw [judge_mirror_pass_iff hl, forall_admits_mirror_iff hl (Suite.regular_of_parse h c hc).1.source]
  · rintro ⟨findings, hpass⟩
    obtain ⟨pairing, hadmits⟩ := matches_of_judge_pass hpass
    refine (judge_mirror_pass_iff hl).2 fun x hx => ?_
    obtain ⟨i, rfl⟩ := List.get_of_mem hx
    exact Expectation.admits_mirror_iff.2 (hadmits i).start_lt_stop

theorem judge_mirror_lines :
    Suite.parse linesFixture = .ok ⟨[linesCase]⟩ ∧ linesCase ∈ [linesCase] ∧
      (linesCase.judge linesCase.mirror).status = .pass := by
  have hmem : linesCase ∈ [linesCase] := List.mem_cons_self
  exact ⟨parse_linesFixture, hmem, (judge_mirror parse_linesFixture hmem).1.2 nofun⟩

/-- A fixture that lists a line of empty code. -/
def emptyFixture : Text :=
  ["<test-data>", "<test-code>", "<description>", "d", "</description>",
    "<expected-problems>", "1", "</expected-problems>", "<expected-linenumbers>", "1", "</expected-linenumbers>",
    "<code/>", "</test-code>", "</test-data>"].flatMap String.toList

/-- What is read from it. -/
def emptyCase : Case where
  description := ['d']
  source := []
  expectations := [⟨none, .line 1 (.emptyAt 0)⟩]

/-- It is read, and its case does not pass. -/
theorem not_judge_mirror :
    ¬ ∀ (t : Text) (s : Suite) (c : Case), Suite.parse t = .ok s → c ∈ s.cases →
      (c.judge c.mirror).status = .pass := by
  intro h
  have hparse : Suite.parse emptyFixture = .ok ⟨[emptyCase]⟩ := toOption_eq_some_iff.1 (by decide +kernel)
  have hpass := h emptyFixture ⟨[emptyCase]⟩ emptyCase hparse List.mem_cons_self
  rw [judge_mirror_pass_iff (Suite.byLine_of_parse hparse List.mem_cons_self)] at hpass
  have hadmits := hpass _ List.mem_cons_self
  exact Nat.lt_irrefl 0 (Expectation.admits_mirror_iff.1 hadmits _ rfl)

end Case

end LintFixture.Fixture
