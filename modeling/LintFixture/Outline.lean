import LintFixture.Grid.Position

/-!
# Outlines

An outline is a tree of named ranges on the grid, such as the syntax tree of a
text. Look-ups descend by binary search, which is right when siblings are in order
and apart; on other trees the answer is what that search meets.
-/

namespace LintFixture

open Grid

/-- A named range, both ends included, and the ranges inside it. -/
structure Outline where
  name : String
  start : Position
  stop : Position
  children : List Outline

namespace Outline

def Contains (n : Outline) (p : Position) : Prop := n.start ≤ p ∧ p ≤ n.stop

instance (n : Outline) (p : Position) : Decidable (n.Contains p) :=
  inferInstanceAs (Decidable (_ ∧ _))

/-- Whether the range of `n` reaches over all of `start` to `stop`. -/
def Covers (n : Outline) (start stop : Position) : Prop := n.start ≤ start ∧ stop ≤ n.stop

instance (n : Outline) (start stop : Position) : Decidable (n.Covers start stop) :=
  inferInstanceAs (Decidable (_ ∧ _))

/-- Whether the range of `n` is just `start` to `stop`. -/
def Spans (n : Outline) (start stop : Position) : Prop := n.start = start ∧ n.stop = stop

instance (n : Outline) (start stop : Position) : Decidable (n.Spans start stop) :=
  inferInstanceAs (Decidable (_ ∧ _))

/-- The sibling that holds `target`, by halving the list. -/
def search (target : Position) (siblings : List Outline) : Option Outline :=
  match h : siblings.drop (siblings.length / 2) with
  | [] => none
  | middle :: after =>
    if middle.start < target then
      if target ≤ middle.stop then some middle else search target after
    else if target < middle.start then search target (siblings.take (siblings.length / 2))
    else some middle
termination_by siblings.length
decreasing_by
  all_goals
    have := congrArg List.length h
    simp only [List.length_drop, List.length_cons, List.length_take] at this ⊢
    omega

theorem mem_of_search {target : Position} {siblings : List Outline} {n : Outline}
    (h : search target siblings = some n) : n ∈ siblings := by
  fun_induction search target siblings with
  | case1 => simp at h
  | case2 siblings middle after hd =>
    obtain rfl := Option.some.inj h
    exact List.mem_of_mem_drop (hd ▸ List.mem_cons_self)
  | case3 siblings middle after hd _ _ ih =>
    exact List.mem_of_mem_drop (hd ▸ List.mem_cons_of_mem _ (ih h))
  | case4 siblings _ _ _ _ _ ih => exact List.mem_of_mem_take (ih h)
  | case5 siblings middle after hd =>
    obtain rfl := Option.some.inj h
    exact List.mem_of_mem_drop (hd ▸ List.mem_cons_self)

theorem sizeOf_lt_of_search {target : Position} {n c : Outline}
    (h : search target n.children = some c) : sizeOf c < sizeOf n := by
  have := List.sizeOf_lt_of_mem (mem_of_search h)
  cases n
  simp only [Outline.mk.sizeOf_spec]
  simp only at this
  omega

/-- The nodes from `n` inwards that the search for `target` passes. -/
def path (target : Position) (n : Outline) : List Outline :=
  n :: match _h : search target n.children with
    | some child => path target child
    | none => []
termination_by sizeOf n
decreasing_by exact sizeOf_lt_of_search _h

/-- The innermost node that contains a position. -/
def innermostAt (n : Outline) (target : Position) : Option Outline :=
  (path target n).getLast?.filter (·.Contains target)

/-- The innermost node that covers a range. -/
def innermostCovering (n : Outline) (start stop : Position) : Option Outline :=
  if (n.innermostAt start).isSome then (path start n).reverse.find? (·.Covers start stop) else none

/-- The outermost node whose range is just the one given. Going outwards, the first node that
covers more than the range ends the search. -/
def outermostSpanning (n : Outline) (start stop : Position) : Option Outline :=
  if (n.innermostAt start).isSome then
    let near := (path start n).reverse.takeWhile fun m =>
      m.Spans start stop ∨ ¬ m.Covers start stop
    (near.filter (·.Spans start stop)).getLast?
  else none

end Outline

end LintFixture
