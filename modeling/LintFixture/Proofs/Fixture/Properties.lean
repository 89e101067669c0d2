import LintFixture.Fixture.Properties
import Mathlib.Data.List.Induction

/-!
# Properties from a list

Setting values one after the other adds no value of its own, and sets properties
to what they were when they are set in their own order (`ofList_entries`). Of
several values of one name the last counts (`find?_ofList`).
-/

namespace LintFixture.Fixture.Properties

theorem eq_of_entries {p q : Properties} (h : p.entries = q.entries) : p = q := by
  cases p
  cases q
  cases h
  rfl

theorem ofList_concat (pairs : List (Text × Text)) (pair : Text × Text) :
    ofList (pairs ++ [pair]) = (ofList pairs).insert pair.1 pair.2 := by
  unfold ofList
  rw [List.foldl_append]
  rfl

/-- A name greater than all others comes last. -/
theorem put_of_lt {name value : Text} {entries : List (Text × Text)} (h : ∀ entry ∈ entries, entry.1 < name) :
    put name value entries = entries ++ [(name, value)] := by
  induction entries with
  | nil => rfl
  | cons entry others ih =>
    rw [List.forall_mem_cons] at h
    have hlt : ¬ name < entry.1 := fun hn => List.lt_irrefl _ (List.lt_trans hn h.1)
    have hne : name ≠ entry.1 := fun he => List.lt_irrefl _ (he ▸ h.1)
    rw [put, if_neg hlt, if_neg hne, ih h.2, List.cons_append]

theorem entries_ofList {entries : List (Text × Text)} (h : entries.Pairwise fun a b => a.1 < b.1) :
    (ofList entries).entries = entries := by
  induction entries using List.reverseRecOn with
  | nil => rfl
  | append_singleton entries entry ih =>
    rw [List.pairwise_append] at h
    rw [ofList_concat]
    show put entry.1 entry.2 (ofList entries).entries = entries ++ [entry]
    rw [ih h.1, put_of_lt fun e he => h.2.2 e he entry (List.mem_singleton_self entry)]

/-- Properties are made up of their own entries. -/
theorem ofList_entries (p : Properties) : ofList p.entries = p := eq_of_entries (entries_ofList p.sorted)

/-- Every entry is one of the pairs that were set. -/
theorem mem_of_mem_ofList {pairs : List (Text × Text)} {entry : Text × Text}
    (h : entry ∈ (ofList pairs).entries) : entry ∈ pairs := by
  induction pairs using List.reverseRecOn with
  | nil => cases h
  | append_singleton pairs pair ih =>
    rw [ofList_concat] at h
    rcases mem_put h with rfl | h
    · exact List.mem_append_right _ List.mem_cons_self
    · exact List.mem_append_left _ (ih h)

theorem lookup_entry (name value key : Text) (entries : List (Text × Text)) :
    ((name, value) :: entries).lookup key = if key = name then some value else entries.lookup key := by
  by_cases h : key = name
  · simp [h]
  · simp [List.lookup_cons, beq_eq_false_iff_ne.2 h, h]

theorem lookup_put {name value key : Text} {entries : List (Text × Text)} :
    (put name value entries).lookup key = if key = name then some value else entries.lookup key := by
  induction entries with
  | nil => rw [put, lookup_entry]
  | cons entry others ih =>
    obtain ⟨first, own⟩ := entry
    unfold put
    split
    · rw [lookup_entry]
    · split
      · next he =>
        obtain rfl : name = first := he
        rw [lookup_entry, lookup_entry]
        split <;> rfl
      · next hne =>
        rw [lookup_entry, lookup_entry, ih]
        by_cases hk : key = first
        · rw [if_pos hk, if_pos hk, if_neg fun he => hne (he.symm.trans hk)]
        · rw [if_neg hk, if_neg hk]

theorem find?_insert (p : Properties) (name value key : Text) :
    (p.insert name value).find? key = if key = name then some value else p.find? key :=
  lookup_put

/-- The value of a name is the last one that was set. -/
theorem find?_ofList (pairs : List (Text × Text)) (name : Text) :
    (ofList pairs).find? name = (pairs.reverse.find? (·.1 == name)).map Prod.snd := by
  induction pairs using List.reverseRecOn with
  | nil => rfl
  | append_singleton pairs pair ih =>
    rw [ofList_concat, find?_insert, ih, List.reverse_append, List.reverse_singleton, List.singleton_append,
      List.find?_cons]
    by_cases h : name = pair.1
    · simp [h]
    · rw [if_neg h, beq_eq_false_iff_ne.2 (Ne.symm h)]

end LintFixture.Fixture.Properties
