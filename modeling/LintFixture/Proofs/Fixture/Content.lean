import LintFixture.Proofs.Fixture.Validity

/-!
# What a case contains

A suite that is read has a case for each entry, in order, and the case contains
what the entry says: a violation for each one declared, with the message and the
line listed for it, the code, and the last value of each property
(`contains_of_ofDocument`).
-/

namespace LintFixture.Fixture

open Grid Markup

namespace Schema

/-- The location is the whole line, which starts at its first column and ends inside the code. -/
def IsWholeLine (source : Text) (line : Nat) (location : Location) : Prop :=
  ∃ region, location = .line line region ∧ regionOfLine source line = .ok region ∧
    positionAt source region.start = .ok ⟨line, 1⟩ ∧ region.stop ≤ source.length

/-- The case contains what the entry says about it, for the number of violations it declares. -/
structure Contains (root e : Element) (count : Nat) (c : Case) : Prop where
  declared : Declares e count
  length : c.expectations.length = count
  messages : ∀ list, e.child? Vocabulary.expectedMessages = some list →
    c.expectations.map Expectation.message =
      (list.childrenNamed Vocabulary.message).map fun message => some (textOf message)
  noMessages : e.child? Vocabulary.expectedMessages = none → ∀ x ∈ c.expectations, x.message = none
  lines : ∀ text, optionalText e Vocabulary.expectedLines = some text →
    ∃ lines, Lists text lines ∧
      List.Forall₂ (fun line x => IsWholeLine c.source line x.location) lines c.expectations
  noLines : optionalText e Vocabulary.expectedLines = none → ∀ x ∈ c.expectations, x.location = .anywhere
  source : ∃ raw, CodeOf root e raw ∧ c.source = Snippet.extract raw
  properties : ∀ name value, c.properties.find? name = some value ↔
    ∃ property, IsLast (·.attribute? Vocabulary.name = some name) (e.childrenNamed Vocabulary.ruleProperty) property ∧
      textOf property = value

variable {root e : Element} {count : Nat} {c : Case}

/-! ## Violations made up of two lists -/

theorem map_message_zipWith {messages : List (Option Text)} {locations : List Location}
    (h : messages.length = locations.length) :
    (List.zipWith Expectation.mk messages locations).map Expectation.message = messages := by
  rw [← List.map_uncurry_zip_eq_zipWith, List.map_map]
  exact List.map_fst_zip (Nat.le_of_eq h)

theorem map_location_zipWith {messages : List (Option Text)} {locations : List Location}
    (h : messages.length = locations.length) :
    (List.zipWith Expectation.mk messages locations).map Expectation.location = locations := by
  rw [← List.map_uncurry_zip_eq_zipWith, List.map_map]
  exact List.map_snd_zip (Nat.le_of_eq h.symm)

theorem length_messagesOf (hm : ∀ messages, readMessages e = some messages → messages.length = count) :
    (messagesOf count (readMessages e)).length = count := by
  cases h : readMessages e with
  | none => exact List.length_replicate
  | some messages => rw [messagesOf, List.length_map, hm messages h]

theorem isWholeLine_of_onLine {source : Text} {line : Nat} {location : Location} (h : OnLine source line location) :
    IsWholeLine source line location := by
  obtain ⟨region, hregion, rfl⟩ := h
  exact ⟨region, rfl, hregion, positionAt_start_of_regionOfLine hregion, (bounds_of_regionOfLine hregion).2⟩

/-! ## The last value of a property -/

theorem find?_of_forall₂ {properties : List Element} {pairs : List (Text × Text)}
    (h : List.Forall₂ IsProperty properties pairs) (name : Text) :
    (pairs.find? (·.1 == name)).map Prod.snd =
      (properties.find? (·.attribute? Vocabulary.name == some name)).map textOf := by
  induction h with
  | nil => rfl
  | cons hpair _ ih =>
    obtain ⟨hname, hvalue⟩ := hpair
    rw [List.find?_cons, List.find?_cons, hname, Option.some_beq_some]
    split
    · exact congrArg some hvalue
    · exact ih

theorem find?_ofList_eq_some_iff {properties : List Element} {pairs : List (Text × Text)}
    (h : List.Forall₂ IsProperty properties pairs) {name value : Text} :
    (Properties.ofList pairs).find? name = some value ↔
      ∃ property, IsLast (·.attribute? Vocabulary.name = some name) properties property ∧ textOf property = value := by
  rw [Properties.find?_ofList, find?_of_forall₂ (List.forall₂_reverse_iff.2 h), Option.map_eq_some_iff]
  simp only [find?_reverse_eq_some_iff, beq_iff_eq]

/-! ## Main statement -/

/-- The case of an entry contains what the entry says. -/
theorem exists_contains (h : ReadsAs root e c) : ∃ count, Contains root e count c := by
  obtain ⟨description, count, listed, raw, locations, pairs, hd, hn, hl, hr, hm, hlen, ho, hp, rfl⟩ := readsAs_iff.1 h
  have hlength : (messagesOf count (readMessages e)).length = locations.length := by
    rw [length_messagesOf hm, length_of_readLocations hlen ho]
  have hmessages := map_message_zipWith hlength
  have hlocations := map_location_zipWith hlength
  refine ⟨count, hn, ?_, ?_, ?_, ?_, ?_, ⟨raw, hr, rfl⟩, fun name value => find?_ofList_eq_some_iff hp⟩
  · rw [assemble, List.length_zipWith, hlength, Nat.min_self, length_of_readLocations hlen ho]
  · intro list hlist
    rw [assemble, hmessages, readMessages, hlist]
    exact List.map_map
  · intro hnone x hx
    have hx' := (mem_of_mem_zipWith hx).1
    rw [readMessages, hnone] at hx'
    exact List.eq_of_mem_replicate hx'
  · intro text htext
    rcases readLines_eq_ok_iff.1 hl with ⟨hnone, -⟩ | ⟨text', lines, htext', hlists, rfl⟩
    · cases htext.symm.trans hnone
    · obtain rfl := Option.some.inj (htext.symm.trans htext')
      refine ⟨lines, hlists, ?_⟩
      obtain ⟨hnone, -⟩ | ⟨lines', heq, hlocated⟩ := (readLocations_eq_ok_iff.1 ho).2
      · cases hnone
      · cases heq
        rw [← List.forall₂_map_right_iff (f := Expectation.location), assemble, hlocations]
        exact hlocated.imp fun _ _ => isWholeLine_of_onLine
  · intro hnone x hx
    rcases readLines_eq_ok_iff.1 hl with ⟨-, rfl⟩ | ⟨text, _, htext, -, -⟩
    · obtain ⟨-, rfl⟩ | ⟨_, hsome, -⟩ := (readLocations_eq_ok_iff.1 ho).2
      · exact List.eq_of_mem_replicate (mem_of_mem_zipWith hx).2
      · cases hsome
    · cases hnone.symm.trans htext

end Schema

/-- A suite that is read has a case for each entry, in order, that contains what the entry says. -/
theorem Suite.contains_of_ofDocument {d : Document} {s : Suite} (h : Suite.ofDocument d = .ok s) :
    List.Forall₂ (fun e c => ∃ count, Schema.Contains d.root e count c)
      (d.root.childrenNamed Vocabulary.testCode) s.cases :=
  (Schema.readRoot_eq_ok_iff.1 h).2.imp fun _ _ => Schema.exists_contains

/-- A fixture that refers to its code, lists messages and lines, and sets one property twice. -/
def Suite.listedFixture : Text :=
  ["<test-data>", "<code-fragment id='f'>", "x\ny", "</code-fragment>", "<test-code>",
    "<description>", "d", "</description>",
    "<rule-property name='p'>", "1", "</rule-property>", "<rule-property name='p'>", " 2 ", "</rule-property>",
    "<expected-problems>", "2", "</expected-problems>",
    "<expected-linenumbers>", "2, 1", "</expected-linenumbers>",
    "<expected-messages>", "<message>", "m", "</message>", "<message>", "n", "</message>", "</expected-messages>",
    "<code-ref id='f'/>", "</test-code>", "</test-data>"].flatMap String.toList

/-- What is read from it. -/
def Suite.listedSuite : Suite where
  cases := [{
    description := ['d']
    source := ['x', '\n', 'y']
    expectations := [⟨some ['m'], .line 2 ⟨2, 3, Nat.le_succ 2⟩⟩, ⟨some ['n'], .line 1 ⟨0, 2, Nat.zero_le 2⟩⟩]
    properties := .ofList [(['p'], ['2'])] }]

theorem Suite.contains_of_ofDocument_listed :
    ∃ d, Document.parse listedFixture = .ok d ∧ Suite.ofDocument d = .ok listedSuite ∧
      List.Forall₂ (fun e c => ∃ count, Schema.Contains d.root e count c)
        (d.root.childrenNamed Vocabulary.testCode) listedSuite.cases := by
  have hparse : Suite.parse listedFixture = .ok listedSuite := toOption_eq_some_iff.1 (by decide +kernel)
  obtain ⟨d, hd, hread⟩ := exists_document_of_parse hparse nofun
  exact ⟨d, hd, hread, Suite.contains_of_ofDocument hread⟩

end LintFixture.Fixture
