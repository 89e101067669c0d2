import LintFixture.Markup.Element
import Mathlib.Data.List.Basic

/-!
# Children by name

Where the children of one name stand among all children of an element.
-/

namespace LintFixture.Markup.Element

variable {e x : Element} {before after : List (Child Element)} {name : Text}

theorem mem_runs_iff {run : Run} : run ∈ e.runs ↔ .text run ∈ e.children := by
  rw [runs, List.mem_filterMap]
  constructor
  · rintro ⟨child, hchild, h⟩
    cases child <;> cases h
    exact hchild
  · exact fun h => ⟨_, h, rfl⟩

theorem mem_elements_iff {inner : Element} : inner ∈ e.elements ↔ .element inner ∈ e.children := by
  rw [elements, List.mem_filterMap]
  constructor
  · rintro ⟨child, hchild, h⟩
    cases child <;> cases h
    exact hchild
  · exact fun h => ⟨_, h, rfl⟩

theorem elements_of_split (h : e.children = before ++ .element x :: after) :
    e.elements = before.filterMap Child.element? ++ x :: after.filterMap Child.element? := by
  rw [elements, h, List.filterMap_append]
  rfl

/-- Children of another name do not see the element. -/
theorem childrenNamed_of_split (h : e.children = before ++ .element x :: after) (hx : x.name ≠ name) :
    e.childrenNamed name =
      (before.filterMap Child.element? ++ after.filterMap Child.element?).filter fun y => y.name == name := by
  rw [childrenNamed, elements_of_split h, List.filter_append, List.filter_append,
    List.filter_cons_of_neg (by simpa using hx)]

theorem child?_eq_none_iff : e.child? name = none ↔ ∀ y, .element y ∈ e.children → y.name ≠ name := by
  simp only [child?, List.find?_eq_none, mem_elements_iff, beq_iff_eq, ne_eq]

/-- The first child of a name, and where it stands. -/
theorem child?_eq_some_iff : e.child? name = some x ↔
    ∃ before after, e.children = before ++ .element x :: after ∧ x.name = name ∧
      ∀ y, .element y ∈ before → y.name ≠ name := by
  rw [child?, List.find?_eq_some_iff_append]
  constructor
  · rintro ⟨hx, named, others, hsplit, hnamed⟩
    obtain ⟨front, back, hchildren, rfl, hback⟩ := List.filterMap_eq_append_iff.1 hsplit
    obtain ⟨texts, _ | x, after, rfl, htexts, ⟨⟩, rfl⟩ := List.filterMap_eq_cons_iff.1 hback
    refine ⟨front ++ texts, after, by rw [hchildren, List.append_assoc], beq_iff_eq.1 hx, fun y hy => ?_⟩
    rcases List.mem_append.1 hy with hy | hy
    · simpa using hnamed y (List.mem_filterMap.2 ⟨_, hy, rfl⟩)
    · cases htexts _ hy
  · rintro ⟨before, after, hsplit, hx, hbefore⟩
    refine ⟨beq_iff_eq.2 hx, _, _, elements_of_split hsplit, fun y hy => ?_⟩
    obtain ⟨_ | y, hc, ⟨⟩⟩ := List.mem_filterMap.1 hy
    simpa using hbefore y hc

/-- Children of one name are found among all children that satisfy a test each of them passes. -/
theorem childrenNamed_eq_filter {p : Child Element → Bool}
    (hp : ∀ x : Element, x.name = name → p (.element x) = true) (e : Element) :
    e.childrenNamed name = ((e.children.filter p).filterMap Child.element?).filter fun x => x.name == name := by
  rw [childrenNamed, elements, List.filter_filterMap, List.filter_filterMap, List.filterMap_filter]
  refine List.filterMap_congr fun c _ => ?_
  cases c with
  | text run => simp [Child.element?]
  | element x =>
    by_cases hx : x.name = name
    · rw [if_pos (hp x hx)]
    · simp [Child.element?, Option.filter, hx]

end LintFixture.Markup.Element
