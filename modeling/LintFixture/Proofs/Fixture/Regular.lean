import LintFixture.Fixture.Writer
import LintFixture.Proofs.Fixture.Parts

/-!
# Regular cases

A case is regular when its texts are trimmed, its code is settled, and its
violations agree on having messages and locations. Whatever is read from a fixture
is regular (`regular_of_readsAs`).
-/

namespace LintFixture.Fixture

open Grid Markup

/-- A location in the code: a line with its region, or a region that starts inside. -/
def Location.StandsIn (source : Text) : Location → Prop
  | .anywhere => False
  | .line number region => regionOfLine source number = .ok region
  | .exact region => region.start ≤ source.length

/-- A case that keeps its data in a fixture, but for the exact regions and the carriage returns at
the ends of its lines. -/
structure Case.Regular (c : Case) : Prop where
  description : Text.trim c.description = c.description
  messages : ∀ x ∈ c.expectations, ∀ m, x.message = some m → Text.trim m = m
  properties : ∀ p ∈ c.properties.entries, Text.trim p.2 = p.2
  languageVersion : ∀ v, c.languageVersion = some v → Text.trim v = v
  allMessages : (∀ x ∈ c.expectations, x.message.isSome) ∨ ∀ x ∈ c.expectations, x.message = none
  allLocations : (∀ x ∈ c.expectations, x.location = .anywhere) ∨
    ∀ x ∈ c.expectations, x.location.StandsIn c.source
  source : c.source = [] ∨ Snippet.Settled c.source

/-- A list can hold the violations, and the lines that are written are sizes. -/
structure Case.Sized (c : Case) : Prop where
  count : c.expectations.length ≤ Expectation.capacity
  lines : ∀ x ∈ c.expectations, ∀ line, x.location.lineIn c.source = .ok (some line) → line ≤ Numeral.maxSize

theorem Case.Sized.length_le_maxSize {c : Case} (h : c.Sized) : c.expectations.length ≤ Numeral.maxSize :=
  Nat.le_trans h.count (by decide)

namespace Schema

variable {root e : Element} {c : Case}

/-! ## The parts of an entry -/

theorem trim_of_optionalText {name text : Text} (h : optionalText e name = some text) : Text.trim text = text := by
  obtain ⟨child, -, rfl⟩ := Option.map_eq_some_iff.1 h
  exact Text.trim_trim _

theorem trim_of_readMessages {messages : List Text} (h : readMessages e = some messages) :
    ∀ m ∈ messages, Text.trim m = m := by
  obtain ⟨list, -, rfl⟩ := Option.map_eq_some_iff.1 h
  intro m hm
  obtain ⟨child, -, rfl⟩ := List.mem_map.1 hm
  exact Text.trim_trim _

theorem messagesOf_cases (e : Element) (count : Nat) :
    (∀ m ∈ messagesOf count (readMessages e), m = none) ∨
    ∀ m ∈ messagesOf count (readMessages e), ∃ text, m = some text ∧ Text.trim text = text := by
  cases hm : readMessages e with
  | none => exact .inl fun m h => List.eq_of_mem_replicate h
  | some messages =>
    refine .inr fun m h => ?_
    obtain ⟨text, ht, rfl⟩ := List.mem_map.1 h
    exact ⟨text, rfl, trim_of_readMessages hm text ht⟩

/-- The locations that are read are all of one kind, and none of them is exact. -/
theorem placed_of_readLocations {source : Text} {count : Nat} {lines : Option (List Nat)}
    {locations : List Location} (hl : readLines e = .ok lines)
    (ho : readLocations e source count lines = .ok locations) :
    (∀ l ∈ locations, l = .anywhere) ∨
    ∀ l ∈ locations, ∃ line region, line ≤ Numeral.maxSize ∧ regionOfLine source line = .ok region ∧
      l = .line line region := by
  rcases (readLocations_eq_ok_iff.1 ho).2 with ⟨-, rfl⟩ | ⟨listed, rfl, hlisted⟩
  · exact .inl fun l h => List.eq_of_mem_replicate h
  · right
    obtain ⟨-, hnone⟩ | ⟨text, lines, -, hlists, heq⟩ := readLines_eq_ok_iff.1 hl
    · cases hnone
    · cases heq
      intro l h
      obtain ⟨line, hline, region, hregion, rfl⟩ := exists_of_mem_right hlisted h
      exact ⟨line, region, (bounds_of_lists hlists line hline).2, hregion, rfl⟩

/-! ## What is read is regular -/

section

variable {description raw : Text} {count : Nat} {lines : Option (List Nat)} {locations : List Location}
  {properties : List (Text × Text)}

theorem regular_assemble (hd : optionalText e Vocabulary.description = some description)
    (hl : readLines e = .ok lines) (ho : readLocations e (Snippet.extract raw) count lines = .ok locations)
    (hp : List.Forall₂ IsProperty (e.childrenNamed Vocabulary.ruleProperty) properties) :
    (assemble e description count (Snippet.extract raw) locations properties).Regular where
  description := trim_of_optionalText hd
  messages := by
    intro x hx m hm
    rcases messagesOf_cases e count with hall | hall
    · cases hm.symm.trans (hall _ (mem_of_mem_zipWith hx).1)
    · obtain ⟨text, ht, htrim⟩ := hall _ (mem_of_mem_zipWith hx).1
      cases hm.symm.trans ht
      exact htrim
  properties := by
    intro p hmem
    obtain ⟨property, -, -, hvalue⟩ := exists_of_mem_right hp (Properties.mem_of_mem_ofList hmem)
    rw [hvalue]
    exact Text.trim_trim _
  languageVersion v hv := trim_of_optionalText hv
  allMessages := by
    rcases messagesOf_cases e count with hall | hall
    · exact .inr fun x hx => hall _ (mem_of_mem_zipWith hx).1
    · left
      intro x hx
      obtain ⟨text, ht, -⟩ := hall _ (mem_of_mem_zipWith hx).1
      rw [ht]
      rfl
  allLocations := by
    rcases placed_of_readLocations hl ho with hall | hall
    · exact .inl fun x hx => hall _ (mem_of_mem_zipWith hx).2
    · right
      intro x hx
      obtain ⟨line, region, -, hregion, heq⟩ := hall _ (mem_of_mem_zipWith hx).2
      rw [heq]
      exact hregion
  source := Snippet.settled_extract raw

theorem sized_assemble (hl : readLines e = .ok lines)
    (hc : ∀ list, lines = some list → list.length = count)
    (ho : readLocations e (Snippet.extract raw) count lines = .ok locations) :
    (assemble e description count (Snippet.extract raw) locations properties).Sized where
  count := by
    refine Nat.le_trans ?_ (readLocations_eq_ok_iff.1 ho).1
    rw [← length_of_readLocations hc ho]
    exact List.length_zipWith ▸ Nat.min_le_right _ _
  lines := by
    intro x hx number hnumber
    rcases placed_of_readLocations hl ho with hall | hall
    · rw [hall _ (mem_of_mem_zipWith hx).2] at hnumber
      cases hnumber
    · obtain ⟨line, region, hle, -, heq⟩ := hall _ (mem_of_mem_zipWith hx).2
      rw [heq] at hnumber
      cases hnumber
      exact hle

end

/-- The case of an entry is regular and of a size that can be, and no location is exact. -/
theorem regular_of_readsAs (h : ReadsAs root e c) :
    c.Regular ∧ c.Sized ∧ ∀ x ∈ c.expectations, ∀ region, x.location ≠ .exact region := by
  obtain ⟨description, count, lines, raw, locations, pairs, hd, -, hl, -, -, hc, ho, hp, rfl⟩ := readsAs_iff.1 h
  refine ⟨regular_assemble hd hl ho hp, sized_assemble hl hc ho, ?_⟩
  intro x hx own heq
  rcases placed_of_readLocations hl ho with hall | hall
  · cases heq.symm.trans (hall _ (mem_of_mem_zipWith hx).2)
  · obtain ⟨line, region, -, -, hline⟩ := hall _ (mem_of_mem_zipWith hx).2
    cases heq.symm.trans hline

end Schema

/-- The cases of a suite that was read are regular. -/
theorem Suite.regular_of_parse {t : Text} {s : Suite} (h : parse t = .ok s) :
    ∀ c ∈ s.cases, c.Regular ∧ c.Sized ∧ ∀ x ∈ c.expectations, ∀ region, x.location ≠ .exact region := by
  obtain ⟨d, -, -, hcases⟩ := parse_eq_ok_iff.1 h
  intro c hc
  obtain ⟨e, -, hread⟩ := exists_of_mem_right hcases hc
  exact Schema.regular_of_readsAs hread

end LintFixture.Fixture
