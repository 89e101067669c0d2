import LintFixture.Text.Basic

/-!
# Properties

Rule properties by name, in ascending order of the names. The order is part of
the type, so two sets of properties with the same values are equal.
-/

namespace LintFixture.Fixture

/-- Named values, by ascending name. -/
structure Properties where
  entries : List (Text × Text)
  sorted : entries.Pairwise fun a b => a.1 < b.1
  deriving DecidableEq, Repr

namespace Properties

def empty : Properties := ⟨[], .nil⟩

/-- Puts a value among entries in ascending order, in place of one of the same name. -/
def put (name value : Text) : List (Text × Text) → List (Text × Text)
  | [] => [(name, value)]
  | entry :: others =>
    if name < entry.1 then (name, value) :: entry :: others
    else if name = entry.1 then (name, value) :: others
    else entry :: put name value others

theorem mem_put {name value : Text} {entries : List (Text × Text)} {x : Text × Text}
    (h : x ∈ put name value entries) : x = (name, value) ∨ x ∈ entries := by
  fun_induction put name value entries <;> grind

theorem lt_of_not_lt_of_ne {s t : Text} (h : ¬ s < t) (hne : s ≠ t) : t < s := by
  rw [List.not_lt] at h
  by_cases hts : t < s
  · exact hts
  · rw [List.not_lt] at hts
    exact absurd (List.le_antisymm hts h) hne

theorem sorted_put (name value : Text) {entries : List (Text × Text)}
    (h : entries.Pairwise fun a b => a.1 < b.1) :
    (put name value entries).Pairwise fun a b => a.1 < b.1 := by
  induction entries with
  | nil => exact List.pairwise_singleton _ _
  | cons entry others ih =>
    obtain ⟨hlt, hs⟩ := List.pairwise_cons.1 h
    unfold put
    split
    · next hn =>
      refine List.pairwise_cons.2 ⟨fun x hx => ?_, h⟩
      rcases List.mem_cons.1 hx with rfl | hx
      · exact hn
      · exact List.lt_trans hn (hlt x hx)
    · split
      · next he => exact List.pairwise_cons.2 ⟨fun x hx => he ▸ hlt x hx, hs⟩
      · next hn hne =>
        refine List.pairwise_cons.2 ⟨fun x hx => ?_, ih hs⟩
        rcases mem_put hx with rfl | hx
        · exact lt_of_not_lt_of_ne hn hne
        · exact hlt x hx

/-- The properties with a value set; an earlier one of that name is replaced. -/
def insert (p : Properties) (name value : Text) : Properties :=
  ⟨put name value p.entries, sorted_put name value p.sorted⟩

/-- Sets the values one after the other. -/
def ofList (pairs : List (Text × Text)) : Properties :=
  pairs.foldl (fun p (name, value) => p.insert name value) empty

def find? (p : Properties) (name : Text) : Option Text := p.entries.lookup name

def isEmpty (p : Properties) : Bool := p.entries.isEmpty

end Properties

end LintFixture.Fixture
