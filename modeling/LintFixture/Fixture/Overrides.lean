import LintFixture.Fixture.Schema

/-!
# Overrides by entry

A record of the rule properties that the entries of a fixture set. Of several
values for one property of an entry, the last one counts.
-/

namespace LintFixture.Fixture

/-- The properties set by each entry that sets any. -/
structure Overrides where
  entries : List (Nat × Properties)
  deriving DecidableEq, Repr

namespace Overrides

def empty : Overrides := ⟨[]⟩

def isEmpty (o : Overrides) : Bool := o.entries.isEmpty

/-- The properties the entry at `index` sets, if any. -/
def propertiesOf (o : Overrides) (index : Nat) : Option Properties := o.entries.lookup index

/-- Sets a property of the entry at `index` in a list of entries. -/
def set (index : Nat) (name value : Text) : List (Nat × Properties) → List (Nat × Properties)
  | [] => [(index, Properties.empty.insert name value)]
  | entry :: others =>
    if entry.1 = index then (index, entry.2.insert name value) :: others
    else entry :: set index name value others

/-- The record with one more override. -/
def record (o : Overrides) (call : Override) : Overrides :=
  ⟨set call.index call.name call.value o.entries⟩

theorem lookup_set (index other : Nat) (name value : Text) (entries : List (Nat × Properties)) :
    (set index name value entries).lookup other =
      if other = index then some (((entries.lookup index).getD .empty).insert name value)
      else entries.lookup other := by
  induction entries with
  | nil => by_cases h : other = index <;> simp [set, List.lookup_cons, h, beq_eq_false_iff_ne.2]
  | cons entry others ih =>
    obtain ⟨i, p⟩ := entry
    by_cases hi : i = index
    · subst hi
      by_cases h : other = i
      · simp [set, h]
      · simp [set, List.lookup_cons, h, beq_eq_false_iff_ne.2 h]
    · by_cases ho : other = i
      · subst ho
        simp [set, hi]
      · simp [set, hi, List.lookup_cons, beq_eq_false_iff_ne.2 ho,
          beq_eq_false_iff_ne.2 (Ne.symm hi), ih]

/-- Recording changes the one property and nothing else. -/
theorem propertiesOf_record (o : Overrides) (call : Override) (index : Nat) :
    (o.record call).propertiesOf index =
      if index = call.index then
        some (((o.propertiesOf call.index).getD .empty).insert call.name call.value)
      else o.propertiesOf index :=
  lookup_set ..

end Overrides

end LintFixture.Fixture
