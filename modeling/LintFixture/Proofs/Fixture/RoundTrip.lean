import LintFixture.Proofs.Fixture.ReadBack

/-!
# Written suites are read back

A suite of regular cases can be written, and is read back with nothing changed but
its exact regions, which become whole lines, and the carriage returns before line
feeds in its code (`exists_readBack`). Without such pairs the code is kept as well
(`exists_parse_write`). What is read from a fixture is regular, so rewriting a
fixture keeps it exactly when no code holds a pair (`parse_write_of_parse`).
-/

namespace LintFixture.Fixture

open Grid Markup Schema Text

namespace Suite

/-- A suite of regular cases is written, and the cases come back in order. -/
theorem exists_readBack {s : Suite} (hr : ∀ c ∈ s.cases, c.Regular) (hs : ∀ c ∈ s.cases, c.Sized) :
    ∃ x read, s.write = .ok x ∧ parse x = .ok read ∧ List.Forall₂ Case.ReadsBackAs s.cases read.cases := by
  have hentry : ∀ c ∈ s.cases, ∃ entry, c.HasEntry entry := by
    intro c hc
    obtain ⟨lines, _, hlines, -⟩ := Case.exists_listedLines (hr c hc) (hs c hc)
    exact ⟨c.sheetWith lines, lines, hlines, rfl⟩
  obtain ⟨entries, hentries⟩ := exists_forall₂ hentry
  obtain ⟨d, hparse, hname, -, hwritten⟩ := exists_document_of_entries hentries
  -- each entry is read on its own, so the cases come back one by one
  have hread : List.Forall₂ (fun c e => ∃ read, c.ReadsBackAs read ∧ ReadsAs d.root e read) s.cases
      (d.root.childrenNamed Vocabulary.testCode) := by
    have hboth := (List.forall₂_and_left _ _).2 ⟨fun c hc => And.intro (hr c hc) (hs c hc), hwritten⟩
    refine hboth.imp ?_
    rintro c e ⟨⟨hregular, hsized⟩, lines, hlines, hw⟩
    obtain ⟨read, hreads, hback⟩ := Case.exists_readsAs hregular hsized hlines hw d.root
    exact ⟨read, hback, hreads⟩
  obtain ⟨reads, hback, hreads⟩ := exists_forall₂_and hread
  exact ⟨_, ⟨reads⟩, write_eq_ok_iff.2 ⟨entries, hentries, rfl⟩, parse_eq_ok_iff.2 ⟨d, hparse, hname, hreads⟩, hback⟩

end Suite

/-! ## Cases that are kept -/

/-- A regular case without a carriage return before a line feed in its code. -/
structure Case.Canonical (c : Case) : Prop extends c.Regular where
  noPair : ¬ HasPair c.source

/-- A list can hold the violations, and the number of lines fits into 64 bits, as for every case in memory. -/
structure Case.FitsMemory (c : Case) : Prop where
  count : c.expectations.length ≤ Expectation.capacity
  lines : countLines c.source ≤ Numeral.maxSize

/-- The location on the whole line: an exact region becomes the line it starts on, with the region of
that line, and any other location stays. -/
def Location.Leveled (source : Text) (location leveled : Location) : Prop :=
  match location with
  | .exact region => ∃ p line, positionAt source region.start = .ok p ∧
      regionOfLine source p.line = .ok line ∧ leveled = .line p.line line
  | _ => leveled = location

/-- The case with all exact regions made whole lines, and nothing else changed. -/
def Case.Leveled (c leveled : Case) : Prop :=
  ∃ expectations, List.Forall₂ (fun x y => y.message = x.message ∧ x.location.Leveled c.source y.location)
      c.expectations expectations ∧
    leveled = { c with expectations }

theorem Location.leveled_of_readsBackAs {source : Text} {location read : Location}
    (h : location = .anywhere ∨ location.StandsIn source) (hb : location.ReadsBackAs source source read) :
    location.Leveled source read := by
  rcases hb with ⟨rfl, rfl⟩ | ⟨line, region, hline, hregion, rfl⟩
  · rfl
  · cases location with
    | anywhere => cases hline
    | line number own =>
      -- a text has one region for a line, so the location is the one that was written
      have hown : regionOfLine source number = .ok own := h.resolve_left (by simp)
      cases hline
      cases hown.symm.trans hregion
      rfl
    | exact own =>
      obtain ⟨p, hp, hline⟩ := bind_eq_ok_iff.1 hline
      cases hline
      exact ⟨p, region, hp, hregion, rfl⟩

namespace Case

variable {c read : Case}

/-- Code without pairs comes back as it was. -/
theorem Regular.extract_block_eq_self_iff (h : c.Regular) :
    Snippet.extract (Snippet.block c.source) = c.source ↔ ¬ HasPair c.source := by
  rcases h.source with hs | hs
  · rw [hs, Snippet.extract_block_nil]
    exact iff_of_true rfl (by simp [HasPair])
  · exact Snippet.extract_block_eq_self_iff hs

theorem Canonical.leveled (hc : c.Canonical) (h : c.ReadsBackAs read) : c.Leveled read := by
  obtain ⟨expectations, hall, rfl⟩ := h
  rw [hc.toRegular.extract_block_eq_self_iff.2 hc.noPair] at hall ⊢
  have hlocated : ∀ x ∈ c.expectations, x.location = .anywhere ∨ x.location.StandsIn c.source := by
    intro x hx
    exact hc.allLocations.imp (fun hall => hall x hx) fun hall => hall x hx
  refine ⟨expectations, ((List.forall₂_and_left _ _).2 ⟨hlocated, hall⟩).imp ?_, rfl⟩
  rintro x y ⟨hx, hmessage, hlocation⟩
  exact ⟨hmessage, Location.leveled_of_readsBackAs hx hlocation⟩

theorem Regular.sized (hr : c.Regular) (h : c.FitsMemory) : c.Sized := by
  refine ⟨h.count, fun x hx line hline => ?_⟩
  rcases hr.allLocations with hall | hall
  · rw [hall x hx] at hline
    cases hline
  · obtain ⟨number, hnumber, -, hle⟩ := exists_lineIn (hall x hx)
    cases hline.symm.trans hnumber
    exact Nat.le_trans hle h.lines

/-- Without exact regions nothing is left to change. -/
theorem Leveled.eq (h : c.Leveled read) (hx : ∀ x ∈ c.expectations, ∀ region, x.location ≠ .exact region) :
    read = c := by
  obtain ⟨expectations, hall, rfl⟩ := h
  have hsame : List.Forall₂ (· = ·) c.expectations expectations := by
    refine ((List.forall₂_and_left _ _).2 ⟨hx, hall⟩).imp ?_
    rintro ⟨message, location⟩ ⟨message', location'⟩ ⟨hx, hmessage, hlocation⟩
    cases location with
    | anywhere =>
      cases hmessage
      cases hlocation
      rfl
    | line number region =>
      cases hmessage
      cases hlocation
      rfl
    | exact region => exact absurd rfl (hx region)
  rw [List.forall₂_eq_eq_eq] at hsame
  rw [← hsame]

end Case

namespace Suite

/-- Writing and reading keep a suite of canonical cases, but for exact regions, which become the lines
they start on. -/
theorem exists_parse_write {s : Suite} (hc : ∀ c ∈ s.cases, c.Canonical) (hm : ∀ c ∈ s.cases, c.FitsMemory) :
    ∃ x read, s.write = .ok x ∧ parse x = .ok read ∧ List.Forall₂ Case.Leveled s.cases read.cases := by
  obtain ⟨x, read, hwrite, hparse, hback⟩ := exists_readBack (s := s) (fun c h => (hc c h).toRegular)
    fun c h => (hc c h).sized (hm c h)
  refine ⟨x, read, hwrite, hparse, ((List.forall₂_and_left _ _).2 ⟨hc, hback⟩).imp ?_⟩
  rintro c c' ⟨hcanonical, hreads⟩
  exact hcanonical.leveled hreads

/-- A case of code in two lines, with a violation at the start of the second one. -/
def twoLines : Case where
  description := "two lines".toList
  source := ['a', '\n', 'b']
  expectations := [⟨some "found".toList, .exact ⟨2, 3, by decide⟩⟩]

theorem canonical_twoLines : twoLines.Canonical where
  description := by decide
  messages := by
    intro x hx m hm
    rw [List.mem_singleton.1 hx] at hm
    obtain rfl := Option.some.inj hm
    decide
  properties := by
    intro p hp
    cases hp
  languageVersion := by
    rintro v ⟨⟩
  allMessages := .inl (by decide)
  allLocations := by
    refine .inr fun x hx => ?_
    rw [List.mem_singleton.1 hx]
    show 2 ≤ 3
    decide
  source := by
    refine .inr ⟨⟨?_, by decide, ?_⟩, by decide⟩
    · rintro row ⟨⟩
      rfl
    · intro w hw
      refine ⟨['a'], by decide, rfl, ?_⟩
      rintro ⟨⟩
      cases hw
  noPair := by
    unfold HasPair
    decide

theorem exists_parse_write_two_lines :
    ∃ x read, write ⟨[twoLines]⟩ = .ok x ∧ parse x = .ok read ∧ List.Forall₂ Case.Leveled [twoLines] read.cases :=
  exists_parse_write (s := ⟨[twoLines]⟩)
    (fun _ hc => List.mem_singleton.1 hc ▸ canonical_twoLines)
    (fun _ hc => List.mem_singleton.1 hc ▸ ⟨by decide, by decide⟩)

/-! ## Rewriting a fixture -/

/-- A suite that was read comes back the same exactly when no code has a pair. -/
theorem readBack_eq_iff {t : Text} {s read : Suite} (h : parse t = .ok s)
    (hback : List.Forall₂ Case.ReadsBackAs s.cases read.cases) :
    read = s ↔ ∀ c ∈ s.cases, ¬ HasPair c.source := by
  have hcases := regular_of_parse h
  constructor
  · rintro rfl c hc
    obtain ⟨_, -, heq⟩ := List.forall₂_same.1 hback c hc
    exact (hcases c hc).1.extract_block_eq_self_iff.1 (congrArg Case.source heq).symm
  · intro hpair
    have hsame : List.Forall₂ (· = ·) s.cases read.cases := by
      refine ((List.forall₂_and_left _ _).2 ⟨fun c hc => And.intro (hcases c hc) (hpair c hc), hback⟩).imp ?_
      rintro c c' ⟨⟨⟨hregular, -, hplaced⟩, hnone⟩, hreads⟩
      exact ((Case.Canonical.leveled ⟨hregular, hnone⟩ hreads).eq hplaced).symm
    rw [List.forall₂_eq_eq_eq] at hsame
    cases s
    cases read
    exact congrArg Suite.mk hsame.symm

/-- A fixture that is rewritten reads as cases that differ in their code and the regions of its lines at
most, and as the same suite exactly when no code has a carriage return before a line feed. -/
theorem parse_write_of_parse {t : Text} {s : Suite} (h : parse t = .ok s) :
    ∃ x read, s.write = .ok x ∧ parse x = .ok read ∧ List.Forall₂ Case.ReadsBackAs s.cases read.cases ∧
      (read = s ↔ ∀ c ∈ s.cases, ¬ HasPair c.source) := by
  have hcases := regular_of_parse h
  obtain ⟨x, read, hwrite, hparse, hback⟩ := exists_readBack (s := s) (fun c hc => (hcases c hc).1)
    fun c hc => (hcases c hc).2.1
  exact ⟨x, read, hwrite, hparse, hback, readBack_eq_iff h hback⟩

/-- A fixture whose code has two carriage returns before a line feed. -/
def returnsFixture : Text :=
  ("<test-data><test-code><description>d</description><expected-problems>0</expected-problems>" ++
    "<code><![CDATA[a\r\r\nb]]></code></test-code></test-data>").toList

/-- What is read from it: one carriage return is left. -/
def returnsSuite : Suite := ⟨[{ description := ['d'], source := ['a', '\r', '\n', 'b'] }]⟩

theorem parse_returnsFixture : parse returnsFixture = .ok returnsSuite :=
  toOption_eq_some_iff.1 (by decide +kernel)

theorem parse_write_of_parse_returns :
    ∃ x read, returnsSuite.write = .ok x ∧ parse x = .ok read ∧
      List.Forall₂ Case.ReadsBackAs returnsSuite.cases read.cases ∧
      (read = returnsSuite ↔ ∀ c ∈ returnsSuite.cases, ¬ HasPair c.source) :=
  parse_write_of_parse parse_returnsFixture

/-- Rewriting that fixture loses the other carriage return as well. -/
theorem not_parse_write_returns :
    parse returnsFixture = .ok returnsSuite ∧
      ¬ ∃ x, returnsSuite.write = .ok x ∧ parse x = .ok returnsSuite := by
  refine ⟨parse_returnsFixture, ?_⟩
  rintro ⟨x, hwrite, hread⟩
  have hcases := regular_of_parse parse_returnsFixture
  obtain ⟨x', read, hwrite', hread', hback⟩ := exists_readBack (fun c hc => (hcases c hc).1)
    fun c hc => (hcases c hc).2.1
  obtain rfl := Except.ok.inj (hwrite.symm.trans hwrite')
  obtain rfl := Except.ok.inj (hread.symm.trans hread')
  refine (readBack_eq_iff parse_returnsFixture hback).1 rfl _ List.mem_cons_self ?_
  unfold HasPair
  decide

end Suite

end LintFixture.Fixture
