import LintFixture.Fixture.Schema
import LintFixture.Proofs.Fixture.Snippet
import LintFixture.Proofs.Fixture.Properties
import LintFixture.Proofs.Grid.Lines
import LintFixture.Proofs.Text.Numeral
import LintFixture.Proofs.Traversal

/-!
# What a fixture is read as

A suite is read exactly when each entry is (`parse_eq_ok_iff`), and an entry
exactly when each of its parts is (`readCase_eq_ok_iff`).
-/

namespace LintFixture.Fixture

open Grid Markup

namespace Schema

/-! ## One entry -/

variable {fragments : Text → Option Element} {e : Element} {c : Case} {properties : List (Text × Text)}

/-- All of an entry but its properties is read exactly when the parts are and the lists have the declared length. -/
theorem readBody_eq_ok_iff :
    readBody fragments e = .ok c ↔
      ∃ description count lines raw locations,
        requiredText e Vocabulary.description = .ok description ∧ readCount e = .ok count ∧
        readLines e = .ok lines ∧ readCode fragments e = .ok raw ∧
        checkLength e .messages count (readMessages e) = .ok () ∧ checkLength e .lines count lines = .ok () ∧
        readLocations e (Snippet.extract raw) count lines = .ok locations ∧
        c = assemble e description count (Snippet.extract raw) locations [] := by
  unfold readBody readDescribed
  simp only [bind_eq_ok_iff, pure, Except.pure, Except.ok.injEq]
  constructor
  · rintro ⟨description, hd, count, hn, lines, hl, raw, hr, _, hm, _, hc, locations, ho, rfl⟩
    exact ⟨description, count, lines, raw, locations, hd, hn, hl, hr, hm, hc, ho, rfl⟩
  · rintro ⟨description, count, lines, raw, locations, hd, hn, hl, hr, hm, hc, ho, rfl⟩
    exact ⟨description, hd, count, hn, lines, hl, raw, hr, (), hm, (), hc, locations, ho, rfl⟩

theorem readProperties_eq_ok_iff {body : Case} :
    readProperties e body = .ok (c, properties) ↔
      (e.childrenNamed Vocabulary.ruleProperty).mapM readProperty = .ok properties ∧
        c = { body with properties := .ofList properties } := by
  unfold readProperties
  simp only [bind_eq_ok_iff, pure, Except.pure, Except.ok.injEq, Prod.mk.injEq]
  constructor
  · rintro ⟨_, hp, rfl, rfl⟩
    exact ⟨hp, rfl⟩
  · rintro ⟨hp, rfl⟩
    exact ⟨properties, hp, rfl, rfl⟩

/-- An entry is read exactly when its parts are and the lists have the declared length. -/
theorem readCase_eq_ok_iff :
    readCase fragments e = .ok (c, properties) ↔
      ∃ description count lines raw locations,
        requiredText e Vocabulary.description = .ok description ∧ readCount e = .ok count ∧
        readLines e = .ok lines ∧ readCode fragments e = .ok raw ∧
        checkLength e .messages count (readMessages e) = .ok () ∧ checkLength e .lines count lines = .ok () ∧
        readLocations e (Snippet.extract raw) count lines = .ok locations ∧
        (e.childrenNamed Vocabulary.ruleProperty).mapM readProperty = .ok properties ∧
        c = assemble e description count (Snippet.extract raw) locations properties := by
  unfold readCase
  simp only [bind_eq_ok_iff, readBody_eq_ok_iff, readProperties_eq_ok_iff]
  constructor
  · rintro ⟨_, ⟨description, count, lines, raw, locations, hd, hn, hl, hr, hm, hc, ho, rfl⟩, hp, rfl⟩
    exact ⟨description, count, lines, raw, locations, hd, hn, hl, hr, hm, hc, ho, hp, rfl⟩
  · rintro ⟨description, count, lines, raw, locations, hd, hn, hl, hr, hm, hc, ho, hp, rfl⟩
    exact ⟨_, ⟨description, count, lines, raw, locations, hd, hn, hl, hr, hm, hc, ho, rfl⟩, hp, rfl⟩

/-! ## All entries -/

/-- An entry stands for a case, whatever properties it hands on. -/
def ReadsAs (root e : Element) (c : Case) : Prop := ∃ properties, readCase (fragment? root) e = .ok (c, properties)

theorem exists_readEntry_iff {root e : Element} {index : Nat} {c : Case} :
    (∃ overrides, readEntry (fragment? root) e index = .ok (c, overrides)) ↔ ReadsAs root e c := by
  unfold readEntry ReadsAs
  cases readCase (fragment? root) e with
  | error flaw => simp
  | ok read => simp [Prod.ext_iff, eq_comm]

theorem readRoot_eq {root : Element} (h : root.name = Vocabulary.testData) :
    readRoot root =
      ((root.childrenNamed Vocabulary.testCode).zipIdx.mapM fun p => readEntry (fragment? root) p.1 p.2) >>=
        fun entries => .ok (⟨entries.map Prod.fst⟩, entries.flatMap Prod.snd) :=
  if_pos h

/-- The cases of a root are read from its entries, in order. -/
theorem readRoot_eq_ok_iff {root : Element} {s : Suite} :
    (readRoot root).map Prod.fst = .ok s ↔
      root.name = Vocabulary.testData ∧
        List.Forall₂ (ReadsAs root) (root.childrenNamed Vocabulary.testCode) s.cases := by
  have hentries : List.Forall₂ (ReadsAs root) (root.childrenNamed Vocabulary.testCode) s.cases ↔
      ∃ entries, ((root.childrenNamed Vocabulary.testCode).zipIdx.mapM fun p =>
        readEntry (fragment? root) p.1 p.2) = .ok entries ∧ entries.map Prod.fst = s.cases := by
    rw [← forall₂_zipIdx_iff (n := 0)]
    simp only [mapM_eq_ok_iff]
    rw [← forall₂_exists_iff]
    simp only [exists_readEntry_iff]
  rw [hentries]
  by_cases hname : root.name = Vocabulary.testData
  · rw [readRoot_eq hname]
    cases (root.childrenNamed Vocabulary.testCode).zipIdx.mapM fun p => readEntry (fragment? root) p.1 p.2 with
    | error e => simp [bind, Except.bind, Except.map]
    | ok entries =>
      obtain ⟨cases⟩ := s
      simp [bind, Except.bind, Except.map, hname]
  · rw [readRoot, if_neg hname]
    simp [hname, Except.map]

theorem readEntry_eq_error_iff {root e : Element} {index : Nat} {stop : Stop Error} :
    readEntry (fragment? root) e index = .error stop ↔
      ∃ own, readCase (fragment? root) e = .error own ∧
        stop = own.map fun flaw => .schema index (optionalText e Vocabulary.description) flaw.span flaw.fault := by
  unfold readEntry
  cases readCase (fragment? root) e <;> simp [eq_comm]

/-- Reading a root stops at the first of its entries that cannot be read. -/
theorem readRoot_eq_error_iff {root : Element} (h : root.name = Vocabulary.testData) {stop : Stop Error} :
    readRoot root = .error stop ↔
      ∃ before e after own, root.childrenNamed Vocabulary.testCode = before ++ e :: after ∧
        (∀ x ∈ before, ∃ c, ReadsAs root x c) ∧ readCase (fragment? root) e = .error own ∧
        stop = own.map fun flaw =>
          .schema before.length (optionalText e Vocabulary.description) flaw.span flaw.fault := by
  have hentries : readRoot root = .error stop ↔
      ((root.childrenNamed Vocabulary.testCode).zipIdx.mapM fun p => readEntry (fragment? root) p.1 p.2) =
        .error stop := by
    rw [readRoot_eq h]
    cases (root.childrenNamed Vocabulary.testCode).zipIdx.mapM fun p => readEntry (fragment? root) p.1 p.2 <;>
      simp [bind, Except.bind]
  have hreads : ∀ before : List Element,
      (∀ p ∈ before.zipIdx, ∃ read, readEntry (fragment? root) p.1 p.2 = .ok read) ↔
        ∀ x ∈ before, ∃ c, ReadsAs root x c := by
    intro before
    conv_rhs => rw [← List.zipIdx_map_fst 0 before, List.forall_mem_map]
    simp only [Prod.exists, exists_readEntry_iff]
  simp only [hentries, mapM_zipIdx_eq_error_iff, hreads, readEntry_eq_error_iff, Nat.zero_add]
  constructor
  · rintro ⟨before, e, after, hsplit, hbefore, own, hown, rfl⟩
    exact ⟨before, e, after, own, hsplit, hbefore, hown, rfl⟩
  · rintro ⟨before, e, after, own, hsplit, hbefore, hown, rfl⟩
    exact ⟨before, e, after, hsplit, hbefore, own, hown, rfl⟩

/-- A root is refused for the flaw of the first of its entries that cannot be read. -/
theorem readRoot_eq_fault_iff {root : Element} (h : root.name = Vocabulary.testData) {error : Error} :
    readRoot root = .error (.fault error) ↔
      ∃ before e after flaw, root.childrenNamed Vocabulary.testCode = before ++ e :: after ∧
        (∀ x ∈ before, ∃ c, ReadsAs root x c) ∧ readCase (fragment? root) e = .error (.fault flaw) ∧
        error = .schema before.length (optionalText e Vocabulary.description) flaw.span flaw.fault := by
  rw [readRoot_eq_error_iff h]
  constructor
  · rintro ⟨before, e, after, own, hsplit, hbefore, hown, heq⟩
    cases own with
    | fault flaw => exact ⟨before, e, after, flaw, hsplit, hbefore, hown, Stop.fault.inj heq⟩
    | overflow => cases heq
  · rintro ⟨before, e, after, flaw, hsplit, hbefore, hflaw, rfl⟩
    exact ⟨before, e, after, .fault flaw, hsplit, hbefore, hflaw, rfl⟩

end Schema

namespace Suite

theorem ofDocument_eq_error_iff {d : Document} {stop : Stop Error} :
    ofDocument d = .error stop ↔ Schema.readRoot d.root = .error stop := by
  unfold ofDocument
  cases Schema.readRoot d.root <;> simp [Except.map]

/-- What comes of a text that is a document comes of the document. -/
theorem exists_document_of_parse {t : Text} {outcome : Except (Stop Error) Suite} (h : parse t = outcome)
    (hmarkup : ∀ own, outcome ≠ .error (.fault (.markup own))) :
    ∃ d, Document.parse t = .ok d ∧ ofDocument d = outcome := by
  unfold parse at h
  split at h
  · next d hd => exact ⟨d, hd, h⟩
  · next own hown => exact absurd h.symm (hmarkup own)

/-- A text is a suite exactly when it is a document whose entries can be read. -/
theorem parse_eq_ok_iff {t : Text} {s : Suite} :
    parse t = .ok s ↔
      ∃ d, Document.parse t = .ok d ∧ d.root.name = Vocabulary.testData ∧
        List.Forall₂ (Schema.ReadsAs d.root) (d.root.childrenNamed Vocabulary.testCode) s.cases := by
  unfold parse
  cases Document.parse t with
  | error e => simp
  | ok d =>
    simp only [ofDocument, Schema.readRoot_eq_ok_iff]
    simp

end Suite

end LintFixture.Fixture
