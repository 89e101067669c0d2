import LintFixture.Proofs.Fixture.Content
import LintFixture.Proofs.Fixture.ReadBack
import LintFixture.Proofs.Fixture.Validity

/-!
# Which written fixtures are read

The writer lists the lines of the code it is given, the reader looks them up in the
code it finds, which has no blank lines at its edges. So a fixture that was written
is read exactly when every line that is listed for a case is one of the lines of
its code as it is read back (`Suite.exists_parse_of_write_iff`). What is read has
the cases and the numbers of violations that were written.
-/

namespace LintFixture.Fixture

open Grid Markup Schema

/-- If lines are listed, each one is a line of the code that is read back. -/
def Case.KeepsLines (c : Case) : Prop :=
  (∀ x ∈ c.expectations, x.location.isPlaced = true) →
    ∀ x ∈ c.expectations, ∀ line, x.location.lineIn c.source = .ok (some line) →
      1 ≤ line ∧ line ≤ countLines (Snippet.extract (Snippet.block c.source))

/-! ## The lines that are listed -/

theorem Location.exists_line_of_lineIn {source : Text} {location : Location} {found : Option Nat}
    (hp : location.isPlaced = true) (h : location.lineIn source = .ok found) : ∃ line, found = some line := by
  cases location with
  | anywhere => cases hp
  | line number region => exact ⟨number, (Except.ok.inj h).symm⟩
  | exact region =>
    obtain ⟨p, -, h⟩ := bind_eq_ok_iff.1 h
    exact ⟨p.line, (Except.ok.inj h).symm⟩

/-- Lines of placed violations, as a list without gaps. -/
theorem forall₂_filterMap_id {source : Text} {xs : List Expectation} {found : List (Option Nat)}
    (hp : ∀ x ∈ xs, x.location.isPlaced = true)
    (h : List.Forall₂ (fun x line => x.location.lineIn source = .ok line) xs found) :
    List.Forall₂ (fun x line => x.location.lineIn source = .ok (some line)) xs (found.filterMap id) := by
  induction h with
  | nil => exact .nil
  | cons hx _ ih =>
    rw [List.forall_mem_cons] at hp
    obtain ⟨line, rfl⟩ := Location.exists_line_of_lineIn hp.1 hx
    exact .cons hx (ih hp.2)

namespace Case

variable {c read : Case} {lines : Option (List Nat)} {root e : Element}

/-- Either no lines are listed, as some violation has no place, or one for each violation. -/
theorem listedLines_cases (h : c.listedLines = .ok lines) :
    (lines = none ∧ (c.expectations = [] ∨ ¬ ∀ x ∈ c.expectations, x.location.isPlaced = true)) ∨
    ∃ listed, lines = some listed ∧ c.expectations ≠ [] ∧ (∀ x ∈ c.expectations, x.location.isPlaced = true) ∧
      List.Forall₂ (fun x line => x.location.lineIn c.source = .ok (some line)) c.expectations listed := by
  unfold listedLines at h
  split at h
  · next hnone =>
    refine .inl ⟨(Except.ok.inj h).symm, ?_⟩
    simpa only [Bool.or_eq_true, List.isEmpty_iff, Bool.not_eq_true', ← Bool.not_eq_true, List.all_eq_true] using hnone
  · next hsome =>
    simp only [Bool.or_eq_true, List.isEmpty_iff, Bool.not_eq_true', ← Bool.not_eq_true, List.all_eq_true, not_or,
      not_not] at hsome
    obtain ⟨found, hfound, h⟩ := bind_eq_ok_iff.1 h
    exact .inr ⟨_, (Except.ok.inj h).symm, hsome.1, hsome.2, forall₂_filterMap_id hsome.2 (mapM_eq_ok_iff.1 hfound)⟩

/-- A case keeps its lines when the code that is read back has each of the lines that are listed. -/
theorem keepsLines_iff (h : c.listedLines = .ok lines) :
    c.KeepsLines ↔ ∀ listed, lines = some listed →
      ∀ line ∈ listed, 1 ≤ line ∧ line ≤ countLines (Snippet.extract (Snippet.block c.source)) := by
  rcases listedLines_cases h with ⟨rfl, hnone⟩ | ⟨listed, rfl, -, hall, hlisted⟩
  · refine iff_of_true (fun hall x hx => ?_) nofun
    rcases hnone with hnil | hsome
    · rw [hnil] at hx
      cases hx
    · exact absurd hall hsome
  · constructor
    · rintro hkeeps _ ⟨⟩ line hline
      obtain ⟨x, hx, hlineIn⟩ := exists_of_mem_right hlisted hline
      exact hkeeps hall x hx line hlineIn
    · intro hbounds _ x hx line hlineIn
      obtain ⟨line', hmem, hown⟩ := exists_of_mem_right hlisted.flip hx
      cases hlineIn.symm.trans hown
      exact hbounds listed rfl line hmem

/-! ## The entry that is read back -/

/-- As many messages are read as were written: one for each violation, or none. -/
theorem Written.length_of_readMessages (hw : c.Written lines e) {messages : List Text}
    (h : readMessages e = some messages) : messages.length = c.expectations.length := by
  rw [hw.readMessages_eq, listedMessages_eq] at h
  split at h
  · next hall =>
    obtain rfl := Option.some.inj h
    rw [List.length_map, ← List.length_map some, map_some_filterMap hall.2, List.length_map]
  · cases h

theorem Sized.of_listedLines {listed : List Nat} (hs : c.Sized) (hl : c.listedLines = .ok (some listed)) :
    listed ≠ [] ∧ listed.length = c.expectations.length ∧ ∀ line ∈ listed, line ≤ Numeral.maxSize := by
  obtain ⟨hnone, -⟩ | ⟨own, heq, hne, -, hlisted⟩ := listedLines_cases hl
  · cases hnone
  · obtain rfl := Option.some.inj heq
    refine ⟨fun hnil => hne ?_, hlisted.length_eq.symm, fun line hline => ?_⟩
    · rw [hnil] at hlisted
      exact List.forall₂_nil_right_iff.1 hlisted
    · obtain ⟨x, hx, hlineIn⟩ := exists_of_mem_right hlisted hline
      exact hs.lines x hx line hlineIn

/-- The list of lines is read, and its lines are found, exactly when they are lines of the code. -/
theorem Written.lines_iff (hw : c.Written lines e) (hs : c.Sized) (hl : c.listedLines = .ok lines) {source : Text} :
    (∀ text, optionalText e Vocabulary.expectedLines = some text →
      ∃ found, Lists text found ∧ found.length = c.expectations.length ∧ ∀ line ∈ found, line ≤ countLines source) ↔
    ∀ listed, lines = some listed → ∀ line ∈ listed, 1 ≤ line ∧ line ≤ countLines source := by
  cases lines with
  | none =>
    have hnone : optionalText e Vocabulary.expectedLines = none := by
      rw [Fixture.optionalText_eq, hw.lines]
      rfl
    simp [hnone]
  | some listed =>
    obtain ⟨hne, hlength, hsize⟩ := hs.of_listedLines hl
    simp only [hw.optionalText_expectedLines, Option.some.injEq, forall_eq', lists_join_ofNat_iff hne hsize]
    constructor
    · rintro ⟨_, ⟨rfl, hpos⟩, -, hle⟩ line hline
      exact ⟨hpos line hline, hle line hline⟩
    · intro h
      exact ⟨listed, ⟨rfl, fun line hline => (h line hline).1⟩, hlength, fun line hline => (h line hline).2⟩

/-- The entry of a case can be read exactly when the case keeps its lines. -/
theorem Written.exists_readsAs_iff (hw : c.Written lines e) (hs : c.Sized) (hl : c.listedLines = .ok lines)
    (root : Element) : (∃ read, ReadsAs root e read) ↔ c.KeepsLines := by
  have hcode : CodeOf root e (Snippet.block c.source) := readCode_eq_ok_iff.1 (hw.readCode_eq _)
  have hdeclares : Declares e c.expectations.length := readCount_eq_ok_iff.1 (hw.readCount_eq hs.length_le_maxSize)
  rw [Schema.exists_readsAs_iff, keepsLines_iff hl, ← hw.lines_iff hs hl]
  constructor
  · rintro ⟨count, hkeeps, -⟩ text htext
    obtain ⟨found, hlists, hlength, hle⟩ := hkeeps.lines text htext
    exact ⟨found, hlists, hlength.trans (hkeeps.declared.unique hdeclares), hle _ hcode⟩
  · intro hlines
    obtain ⟨child, hchild, -⟩ := optionalText_eq_some_iff.1 (requiredText_eq_ok_iff.1 hw.requiredText_eq)
    refine ⟨_, ⟨⟨child, hchild⟩, hdeclares, fun text htext => ?_,
      length_of_readMessages_iff.1 fun _ => hw.length_of_readMessages, exists_codeOf_iff.1 ⟨_, hcode⟩, ?_⟩, hs.count⟩
    · obtain ⟨found, hlists, hlength, hle⟩ := hlines text htext
      exact ⟨found, hlists, hlength, fun raw hraw => hcode.unique hraw ▸ hle⟩
    · intro property hproperty
      obtain ⟨pair, -, hpair⟩ := exists_of_mem_right (mapM_eq_ok_iff.1 hw.readProperties_eq).flip hproperty
      exact ⟨pair.1, (readProperty_eq_ok_iff.1 hpair).1⟩

/-- As many violations are read as the entry declares. -/
theorem declares_of_readsAs (h : ReadsAs root e c) : Declares e c.expectations.length := by
  obtain ⟨description, count, listed, raw, locations, pairs, -, hn, -, -, hm, hlen, ho, -, rfl⟩ := readsAs_iff.1 h
  have hlength : (assemble e description count (Snippet.extract raw) locations pairs).expectations.length = count := by
    rw [assemble, List.length_zipWith, length_messagesOf hm, length_of_readLocations hlen ho, Nat.min_self]
  rwa [hlength]

end Case

/-! ## Main statement -/

namespace Suite

variable {s : Suite} {x : Text}

/-- A written fixture is a document with an entry for each case. -/
theorem exists_written_of_write (h : s.write = .ok x) :
    ∃ d, Document.parse x = .ok d ∧ d.root.name = Vocabulary.testData ∧
      List.Forall₂ (fun c e => ∃ lines, Case.listedLines c = .ok lines ∧ c.Written lines e) s.cases
        (d.root.childrenNamed Vocabulary.testCode) := by
  obtain ⟨entries, hentries, rfl⟩ := write_eq_ok_iff.1 h
  obtain ⟨d, hd, hname, -, hwritten⟩ := exists_document_of_entries hentries
  exact ⟨d, hd, hname, hwritten⟩

theorem exists_parse_iff_of_write (hs : ∀ c ∈ s.cases, c.Sized) (h : s.write = .ok x) :
    (∃ read, parse x = .ok read) ↔ ∀ c ∈ s.cases, c.KeepsLines := by
  obtain ⟨d, hd, hname, hwritten⟩ := exists_written_of_write h
  have hcases : List.Forall₂ (fun c e => (∃ read, ReadsAs d.root e read) ↔ c.KeepsLines) s.cases
      (d.root.childrenNamed Vocabulary.testCode) := by
    refine ((List.forall₂_and_left _ _).2 ⟨hs, hwritten⟩).imp ?_
    rintro c e ⟨hsized, lines, hlines, hw⟩
    exact hw.exists_readsAs_iff hsized hlines d.root
  constructor
  · rintro ⟨read, hread⟩ c hc
    obtain ⟨_, hd', -, hall⟩ := parse_eq_ok_iff.1 hread
    obtain rfl := Except.ok.inj (hd.symm.trans hd')
    obtain ⟨e, he, hiff⟩ := exists_of_mem_right hcases.flip hc
    obtain ⟨own, -, hown⟩ := exists_of_mem_right hall.flip he
    exact hiff.1 ⟨own, hown⟩
  · intro hkeeps
    obtain ⟨reads, hreads⟩ := exists_forall₂ (R := ReadsAs d.root) fun e he => by
      obtain ⟨c, hc, hiff⟩ := exists_of_mem_right hcases he
      exact hiff.2 (hkeeps c hc)
    exact ⟨⟨reads⟩, parse_eq_ok_iff.2 ⟨d, hd, hname, hreads⟩⟩

/-- What is read of a written fixture has the cases that were written, each with as many violations. -/
theorem forall₂_length_of_write (hs : ∀ c ∈ s.cases, c.Sized) (h : s.write = .ok x) {read : Suite}
    (hread : parse x = .ok read) :
    List.Forall₂ (fun c own => own.expectations.length = c.expectations.length) s.cases read.cases := by
  obtain ⟨d, hd, -, hwritten⟩ := exists_written_of_write h
  obtain ⟨_, hd', -, hall⟩ := parse_eq_ok_iff.1 hread
  obtain rfl := Except.ok.inj (hd.symm.trans hd')
  refine (forall₂_comp ((List.forall₂_and_left _ _).2 ⟨hs, hwritten⟩) hall).imp ?_
  rintro c own ⟨e, ⟨hsized, lines, -, hw⟩, hown⟩
  have hdeclared := readCount_eq_ok_iff.2 (Case.declares_of_readsAs hown)
  exact Except.ok.inj (hdeclared.symm.trans (hw.readCount_eq hsized.length_le_maxSize))

/-- A fixture that was written is read exactly when each of its cases keeps its lines, and then as the cases that were
written, each with as many violations. -/
theorem exists_reread_iff (hs : ∀ c ∈ s.cases, c.Sized) (h : s.write = .ok x) :
    ((∃ read, parse x = .ok read) ↔ ∀ c ∈ s.cases, c.KeepsLines) ∧
      ∀ read, parse x = .ok read →
        List.Forall₂ (fun c own => own.expectations.length = c.expectations.length) s.cases read.cases :=
  ⟨exists_parse_iff_of_write hs h, fun _ => forall₂_length_of_write hs h⟩

/-- A case whose violation takes one character of code with an empty line at its end. -/
def emptyLast (offset : Nat) : Case where
  description := ['d']
  source := ['a', '\n', '\n']
  expectations := [⟨none, .exact ⟨offset, offset + 1, Nat.le_succ offset⟩⟩]

theorem sized_emptyLast : (emptyLast 0).Sized where
  count := by decide
  lines := by
    intro x hx line hline
    obtain rfl := List.mem_singleton.1 hx
    obtain rfl : 1 = line := Option.some.inj (Except.ok.inj hline)
    decide

/-- On the line before the empty one, the violation is written and read. -/
theorem exists_reread_iff_empty_last :
    ∃ x read, write ⟨[emptyLast 0]⟩ = .ok x ∧ parse x = .ok read ∧
      ((∃ read, parse x = .ok read) ↔ ∀ c ∈ [emptyLast 0], c.KeepsLines) ∧
      List.Forall₂ (fun c own => own.expectations.length = c.expectations.length) [emptyLast 0] read.cases := by
  have hreads : ((write ⟨[emptyLast 0]⟩).toOption.bind fun x => (parse x).toOption).isSome = true := by
    decide +kernel
  simp only [Option.isSome_iff_exists, Option.bind_eq_some_iff, toOption_eq_some_iff] at hreads
  obtain ⟨read, x, hwrite, hread⟩ := hreads
  obtain ⟨hiff, hlength⟩ := exists_reread_iff (s := ⟨[emptyLast 0]⟩)
    (fun _ hc => List.mem_singleton.1 hc ▸ sized_emptyLast) hwrite
  exact ⟨x, read, hwrite, hread, hiff, hlength read hread⟩

/-- On the empty line it is written with a line that the code has no more when it is read. -/
theorem not_parse_write_empty_last : ∃ x, write ⟨[emptyLast 2]⟩ = .ok x ∧ ¬ ∃ read, parse x = .ok read := by
  have hreads : ((write ⟨[emptyLast 2]⟩).toOption.map fun x => (parse x).toOption) = some none := by
    decide +kernel
  simp only [Option.map_eq_some_iff, toOption_eq_some_iff] at hreads
  obtain ⟨x, hwrite, hnone⟩ := hreads
  refine ⟨x, hwrite, ?_⟩
  rintro ⟨read, hread⟩
  rw [hread] at hnone
  cases hnone

end Suite

end LintFixture.Fixture
