import LintFixture.Proofs.Fixture.Matching

/-!
# The order of reports

Findings are put in source order before they are compared, so of a report only the
order of findings at one place can matter. Every case judges two reports of the same
findings alike exactly when that order is the same, and a case that expects no
messages does so in any case (`judge_perm`). Where messages are expected, the same
findings can pass or fail (`not_judge_perm`).
-/

namespace LintFixture.Fixture

open Grid

/-! ## Places -/

namespace Finding

variable {f g : Finding} {fs gs : List Finding}

/-- Where a finding stands in source order. -/
def place (f : Finding) : Nat × Region := (f.line, f.region)

theorem eq_of_place_eq (h : f.place = g.place) (hm : f.message = g.message) : f = g := by
  obtain ⟨hline, hregion⟩ := Prod.mk.inj h
  cases f
  cases g
  cases hline
  cases hregion
  cases hm
  rfl

/-- Findings that precede each other are at one place. -/
theorem place_eq_iff : g.place = f.place ↔ (f.precedes g && g.precedes f) = true := by
  rw [Bool.and_eq_true, precedes_iff, precedes_iff]
  constructor
  · intro h
    obtain ⟨hline, hregion⟩ := Prod.mk.inj h
    rw [hline, hregion]
    exact ⟨.inr ⟨rfl, f.region.le_refl⟩, .inr ⟨rfl, f.region.le_refl⟩⟩
  · rintro ⟨hfg, hgf⟩
    obtain ⟨hline, hle⟩ : f.line = g.line ∧ f.region ≤ g.region := hfg.resolve_left (by omega)
    have hle' := (hgf.resolve_left (by omega)).2
    exact Prod.ext hline.symm (Region.le_antisymm hle' hle)

/-- Sorting brings two reports to one order exactly when the findings of each place already have it. -/
theorem mergeSort_eq_iff :
    fs.mergeSort precedes = gs.mergeSort precedes ↔
      ∀ place, fs.filter (fun f => f.place = place) = gs.filter fun f => f.place = place := by
  have htie : ∀ f, (fun g => precedes f g && precedes g f) = fun g => decide (g.place = f.place) := by
    intro f
    funext g
    rw [Bool.eq_iff_iff, ← place_eq_iff, decide_eq_true_iff]
  rw [mergeSort_eq_mergeSort_iff precedes_trans precedes_total]
  simp only [htie]
  constructor
  · intro h place
    exact h ⟨place.2, place.1, none⟩
  · intro h f
    exact h f.place

/-- In source order two reports of the same findings go through the same places. -/
theorem map_place_mergeSort (h : fs.Perm gs) :
    (fs.mergeSort precedes).map place = (gs.mergeSort precedes).map place := by
  have hsorted : ∀ hs : List Finding, ((hs.mergeSort precedes).map place).Pairwise
      fun p q => p.1 < q.1 ∨ (p.1 = q.1 ∧ p.2 ≤ q.2) := by
    intro hs
    rw [List.pairwise_map]
    exact (List.pairwise_mergeSort precedes_trans precedes_total hs).imp fun hle => precedes_iff.1 hle
  have hperm := ((List.mergeSort_perm fs precedes).trans h).trans (List.mergeSort_perm gs precedes).symm
  refine (hperm.map place).eq_of_pairwise (fun p q _ _ hpq hqp => ?_) (hsorted fs) (hsorted gs)
  obtain ⟨hline, hle⟩ := hpq.resolve_left (by omega)
  exact Prod.ext hline (Region.le_antisymm hle (hqp.resolve_left (by omega)).2)

end Finding

/-! ## Probes -/

/-- Two messages are told apart by a text that one of them allows and the other one does not. -/
theorem exists_text_of_ne {m n : Option Text} (h : m ≠ n) :
    ∃ text, ¬ ((∀ actual, m = some actual → actual = text) ↔ ∀ actual, n = some actual → actual = text) := by
  cases m with
  | none =>
    obtain ⟨b, rfl⟩ := Option.ne_none_iff_exists'.1 h.symm
    exact ⟨'x' :: b, by simp⟩
  | some a =>
    cases n with
    | none => exact ⟨'x' :: a, by simp⟩
    | some b =>
      have hne : b ≠ a := fun heq => h (congrArg some heq.symm)
      exact ⟨a, by simp [hne]⟩

namespace Case

variable {c : Case} {fs gs : List Finding}

/-- Expects a number of findings, and of the one that comes at `index` in source order a message. -/
def probe (count index : Nat) (text : Text) : Case where
  description := []
  source := []
  expectations := (List.range count).map fun i => ⟨if i = index then some text else none, .anywhere⟩

theorem probe_pass_iff {index : Nat} {text : Text} :
    ((probe fs.length index text).judge fs).status = .pass ↔
      ∀ f, (fs.mergeSort Finding.precedes)[index]? = some f →
        ∀ actual, f.message = some actual → actual = text := by
  have hsorted : (probe fs.length index text).expectations.Pairwise fun x y => x.precedes y = true := by
    refine List.pairwise_map.2 (List.pairwise_of_forall fun i j => ?_)
    exact Expectation.precedes_iff.2 fun r hr => by cases hr
  rw [judge_pass_iff, List.mergeSort_of_pairwise hsorted, List.forall₂_iff_get]
  constructor
  · rintro ⟨hlen, hall⟩ f hf actual hactual
    obtain ⟨hi, rfl⟩ := List.getElem?_eq_some_iff.1 hf
    exact (hall index (hlen.symm ▸ hi) hi).message text actual (by simp [probe]) hactual
  · intro h
    refine ⟨by simp [probe], fun i hi hi' => ?_⟩
    have hx : (probe fs.length index text).expectations.get ⟨i, hi⟩ =
        ⟨if i = index then some text else none, .anywhere⟩ := by simp [probe]
    rw [hx]
    refine ⟨nofun, nofun, fun expected actual he hactual => ?_⟩
    by_cases hindex : i = index
    · subst hindex
      obtain rfl : text = expected := by simpa using he
      exact h _ (List.getElem?_eq_getElem hi') actual hactual
    · simp [hindex] at he

/-! ## Main statement -/

theorem judge_status_eq_iff :
    (c.judge fs).status = (c.judge gs).status ↔ ((c.judge fs).status = .pass ↔ (c.judge gs).status = .pass) := by
  unfold judge
  cases c.discrepancy? fs <;> cases c.discrepancy? gs <;> simp [Verdict.pass, Verdict.fail]

/-- A case that expects no messages looks at places only. -/
theorem judge_pass_of_perm (h : fs.Perm gs) (hm : ∀ x ∈ c.expectations, x.message = none)
    (hpass : (c.judge fs).status = .pass) : (c.judge gs).status = .pass := by
  rw [judge_pass_iff] at hpass ⊢
  have hplaces := map_eq_map_iff_forall₂.1 (Finding.map_place_mergeSort h)
  have hnone : ∀ x ∈ c.expectations.mergeSort Expectation.precedes, x.message = none :=
    fun x hx => hm x (List.mem_mergeSort.1 hx)
  refine ((List.forall₂_and_left _ _).2 ⟨hnone, forall₂_comp hpass hplaces⟩).imp ?_
  rintro x g ⟨hx, f, hadmits, hplace⟩
  obtain ⟨hline, hregion⟩ := Prod.mk.inj hplace
  exact ⟨hregion ▸ hadmits.region, hline ▸ hadmits.line, fun expected _ he => by cases hx.symm.trans he⟩

/-- Reports that every case judges alike give the findings of each place in one order. -/
theorem mergeSort_eq_of_judge_eq (h : fs.Perm gs) (hjudge : ∀ c : Case, (c.judge fs).status = (c.judge gs).status) :
    fs.mergeSort Finding.precedes = gs.mergeSort Finding.precedes := by
  refine List.ext_getElem (by simp [h.length_eq]) fun i hf hg => ?_
  have hplace := congrArg (·[i]?) (Finding.map_place_mergeSort h)
  simp only [List.getElem?_map, List.getElem?_eq_getElem hf, List.getElem?_eq_getElem hg, Option.map_some,
    Option.some.injEq] at hplace
  refine Finding.eq_of_place_eq hplace ?_
  by_contra hne
  -- at the first difference in messages one report passes and the other one fails
  obtain ⟨text, htext⟩ := exists_text_of_ne hne
  have hprobe := judge_status_eq_iff.1 (hjudge (probe fs.length i text))
  rw [probe_pass_iff, h.length_eq, probe_pass_iff] at hprobe
  simp only [List.getElem?_eq_getElem hf, List.getElem?_eq_getElem hg, Option.some.injEq, forall_eq'] at hprobe
  exact htext hprobe

/-- Of two reports of the same findings, every case judges one as the other exactly when the findings of
each place are reported in one order. A case that expects no messages always does. -/
theorem judge_perm (h : fs.Perm gs) :
    ((∀ c : Case, (c.judge fs).status = (c.judge gs).status) ↔
      ∀ place, fs.filter (fun f => f.place = place) = gs.filter fun f => f.place = place) ∧
    ∀ c : Case, (∀ x ∈ c.expectations, x.message = none) → (c.judge fs).status = (c.judge gs).status := by
  refine ⟨⟨fun hjudge => ?_, fun hplaces c => ?_⟩, fun c hm => ?_⟩
  · exact Finding.mergeSort_eq_iff.1 (mergeSort_eq_of_judge_eq h hjudge)
  · rw [judge_status_eq_iff, judge_pass_iff, judge_pass_iff, Finding.mergeSort_eq_iff.2 hplaces]
  · rw [judge_status_eq_iff]
    exact ⟨judge_pass_of_perm h hm, judge_pass_of_perm h.symm hm⟩

theorem judge_perm_lines :
    linesFindings.reverse.Perm linesFindings ∧
      ∀ c : Case, (c.judge linesFindings.reverse).status = (c.judge linesFindings).status := by
  have hperm : linesFindings.reverse.Perm linesFindings := List.reverse_perm _
  refine ⟨hperm, (judge_perm hperm).1.2 ?_⟩
  rintro ⟨line, region⟩
  -- the two findings are on different lines
  by_cases hline : 1 = line
  · simp [linesFindings, List.filter_cons, Finding.place, ← hline]
  · simp [linesFindings, List.filter_cons, Finding.place, hline]

/-- Two messages are expected, in this order. -/
def messagesCase : Case where
  description := ['d']
  source := ['x']
  expectations := [⟨some ['a'], .anywhere⟩, ⟨some ['b'], .anywhere⟩]

/-- Both messages are reported at one place. -/
def messagesFindings : List Finding :=
  [⟨⟨0, 1, by decide⟩, 1, some ['a']⟩, ⟨⟨0, 1, by decide⟩, 1, some ['b']⟩]

/-- Reported in this order they pass, and in the other order they fail. -/
theorem not_judge_perm :
    ¬ ∀ (c : Case) (fs gs : List Finding), fs.Perm gs → (c.judge fs).status = (c.judge gs).status := by
  intro h
  have hstatus := judge_status_eq_iff.1
    (h messagesCase messagesFindings messagesFindings.reverse (List.reverse_perm _).symm)
  have hexpected : messagesCase.expectations.mergeSort Expectation.precedes = messagesCase.expectations :=
    List.mergeSort_of_pairwise (by decide)
  have hfs : messagesFindings.mergeSort Finding.precedes = messagesFindings := List.mergeSort_of_pairwise (by decide)
  have hgs : messagesFindings.reverse.mergeSort Finding.precedes = messagesFindings.reverse :=
    List.mergeSort_of_pairwise (by decide)
  rw [judge_pass_iff, judge_pass_iff, hexpected, hfs, hgs] at hstatus
  obtain ⟨hfirst, -⟩ := List.forall₂_cons.1 (hstatus.1 (.cons
    (Expectation.discrepancy?_eq_none_iff.1 rfl) (.cons (Expectation.discrepancy?_eq_none_iff.1 rfl) .nil)))
  cases hfirst.message ['a'] ['b'] rfl rfl

end Case

end LintFixture.Fixture
