import LintFixture.Outline
import LintFixture.Proofs.Grid.Walk
import Mathlib.Data.List.Basic

/-!
# Look-ups in well-formed outlines

Where siblings are in order and apart, halving the list finds the one sibling that
holds a position (`filter_contains_eq_search`). So the nodes of the whole tree that
contain a position are those on the path to it (`filter_contains_nodes`), and each
look-up gives what going through all nodes gives.
-/

namespace LintFixture.Outline

open Grid

variable {n m : Outline} {p start stop : Position}

/-! ## All nodes of an outline -/

mutual

/-- The node and all nodes inside it, each with its depth, outer ones first. -/
def nodes (depth : Nat) : Outline → List (Outline × Nat)
  | ⟨name, start, stop, children⟩ => (⟨name, start, stop, children⟩, depth) :: nodesOfAll (depth + 1) children

/-- The nodes of several outlines next to each other. -/
def nodesOfAll (depth : Nat) : List Outline → List (Outline × Nat)
  | [] => []
  | n :: others => nodes depth n ++ nodesOfAll depth others

end

theorem nodesOfAll_eq (depth : Nat) (ns : List Outline) : nodesOfAll depth ns = ns.flatMap (nodes depth) := by
  induction ns with
  | nil => rfl
  | cons n ns ih => rw [nodesOfAll, ih, List.flatMap_cons]

theorem nodes_eq (depth : Nat) (n : Outline) :
    n.nodes depth = (n, depth) :: n.children.flatMap (nodes (depth + 1)) := by
  cases n
  rw [nodes, nodesOfAll_eq]

/-- The nodes that satisfy `P`, outer ones first. -/
def nodesWith (P : Outline → Prop) [DecidablePred P] (n : Outline) : List (Outline × Nat) :=
  (n.nodes 0).filter (P ·.1)

/-- The nodes that satisfy `P` and that no node satisfying `P` is deeper than. -/
def deepest (P : Outline → Prop) [DecidablePred P] (n : Outline) : List Outline :=
  ((n.nodesWith P).filter fun m => ∀ k ∈ n.nodesWith P, k.2 ≤ m.2).map Prod.fst

/-- The nodes that satisfy `P` and that no node satisfying `P` is further out than. -/
def outermost (P : Outline → Prop) [DecidablePred P] (n : Outline) : List Outline :=
  ((n.nodesWith P).filter fun m => ∀ k ∈ n.nodesWith P, m.2 ≤ k.2).map Prod.fst

/-- Every range is in order, children lie inside their parent, and siblings are in order and apart. -/
inductive WellFormed : Outline → Prop
  | intro {n : Outline} (start_le_stop : n.start ≤ n.stop)
      (inside : ∀ c ∈ n.children, n.Covers c.start c.stop)
      (apart : n.children.IsChain fun a b => a.stop < b.start)
      (children : ∀ c ∈ n.children, WellFormed c) : WellFormed n

/-! ## Ranges -/

theorem covers_self (n : Outline) : n.Covers n.start n.stop := ⟨Position.le_refl _, Position.le_refl _⟩

theorem contains_iff_covers : n.Contains p ↔ n.Covers p p := Iff.rfl

theorem Covers.trans (h : n.Covers m.start m.stop) (h' : m.Covers start stop) : n.Covers start stop :=
  ⟨Position.le_trans h.1 h'.1, Position.le_trans h'.2 h.2⟩

theorem Covers.contains (h : n.Covers start stop) (hle : start ≤ stop) : n.Contains start :=
  ⟨h.1, Position.le_trans hle h.2⟩

theorem Spans.covers (h : n.Spans start stop) : n.Covers start stop := by
  obtain ⟨rfl, rfl⟩ := h
  exact covers_self n

/-- A range between two equal ones is that range. -/
theorem Spans.of_covers (h : n.Spans start stop) (hc : n.Covers m.start m.stop) (hm : m.Covers start stop) :
    m.Spans start stop := by
  obtain ⟨rfl, rfl⟩ := h
  exact ⟨Std.le_antisymm hm.1 hc.1, Std.le_antisymm hc.2 hm.2⟩

/-! ## Siblings -/

namespace WellFormed

theorem start_le_stop (h : n.WellFormed) : n.start ≤ n.stop := by
  cases h
  assumption

/-- Siblings are apart, not only neighbours. -/
theorem pairwise_children (h : n.WellFormed) : n.children.Pairwise fun a b => a.stop < b.start := by
  cases h with
  | intro _ _ apart children =>
    have hle : ∀ c ∈ n.children, c.start ≤ c.stop := fun c hc => (children c hc).start_le_stop
    generalize n.children = siblings at apart hle
    induction apart with
    | nil => exact .nil
    | singleton => exact List.pairwise_singleton ..
    | @cons_cons a b others hab _ ih =>
      rw [List.forall_mem_cons] at hle
      have hrest := ih hle.2
      refine .cons ?_ hrest
      have hb : a.stop < b.stop := Std.lt_of_lt_of_le hab (hle.2 b List.mem_cons_self)
      rw [List.forall_mem_cons]
      exact ⟨hab, fun c hc => Std.lt_trans hb (List.rel_of_pairwise_cons hrest hc)⟩

end WellFormed

theorem not_contains_of_stop_lt (h : n.stop < p) : ¬ n.Contains p := fun hc => Std.not_le.2 h hc.2

theorem not_contains_of_lt_start (h : p < n.start) : ¬ n.Contains p := fun hc => Std.not_le.2 h hc.1

section Siblings

variable {before after : List Outline} {middle : Outline}

theorem filter_contains_before (h : (before ++ middle :: after).Pairwise fun a b => a.stop < b.start)
    (hp : middle.start ≤ p) : before.filter (·.Contains p) = [] := by
  rw [List.filter_eq_nil_iff]
  intro c hc
  have hlt : c.stop < middle.start := (List.pairwise_append.1 h).2.2 c hc middle List.mem_cons_self
  simpa using not_contains_of_stop_lt (Std.lt_of_lt_of_le hlt hp)

theorem filter_contains_after (h : (before ++ middle :: after).Pairwise fun a b => a.stop < b.start)
    (hp : p ≤ middle.stop) : after.filter (·.Contains p) = [] := by
  rw [List.filter_eq_nil_iff]
  intro c hc
  have hlt : middle.stop < c.start := List.rel_of_pairwise_cons (List.pairwise_append.1 h).2.1 hc
  simpa using not_contains_of_lt_start (Std.lt_of_le_of_lt hp hlt)

theorem filter_contains_eq_singleton (h : (before ++ middle :: after).Pairwise fun a b => a.stop < b.start)
    (hp : middle.Contains p) : (before ++ middle :: after).filter (·.Contains p) = [middle] := by
  rw [List.filter_append, filter_contains_before h hp.1, List.filter_cons_of_pos (by simpa using hp),
    filter_contains_after h hp.2, List.nil_append]

/-- Halving the list finds the sibling that contains a position, of which there is at most one. -/
theorem filter_contains_eq_search {siblings : List Outline} (hle : ∀ c ∈ siblings, c.start ≤ c.stop)
    (h : siblings.Pairwise fun a b => a.stop < b.start) :
    siblings.filter (·.Contains p) = (search p siblings).toList := by
  fun_induction search p siblings with
  | case1 siblings hd =>
    -- only the empty list has nothing from its middle on
    have hlength := List.length_eq_zero_iff.2 hd
    rw [List.length_drop] at hlength
    obtain rfl : siblings = [] := List.eq_nil_of_length_eq_zero (by omega)
    rfl
  | case2 siblings middle after hd hstart hstop =>
    rw [← List.take_append_drop (siblings.length / 2) siblings, hd] at h ⊢
    exact filter_contains_eq_singleton h ⟨Std.le_of_lt hstart, hstop⟩
  | case3 siblings middle after hd hstart hstop ih =>
    rw [← List.take_append_drop (siblings.length / 2) siblings, hd] at h hle ⊢
    rw [List.filter_append, filter_contains_before h (Std.le_of_lt hstart), List.filter_cons_of_neg]
    · exact ih (fun c hc => hle c (by simp [hc])) (List.pairwise_append.1 h).2.1.of_cons
    · simpa using fun hc : middle.Contains p => hstop hc.2
  | case4 siblings middle after hd _ hstart ih =>
    rw [← List.take_append_drop (siblings.length / 2) siblings, hd] at h hle
    conv_lhs => rw [← List.take_append_drop (siblings.length / 2) siblings, hd]
    have hstop : p ≤ middle.stop := Std.le_of_lt (Std.lt_of_lt_of_le hstart (hle middle (by simp)))
    -- here the order of the middle's own range counts: what follows it is even further on
    rw [List.filter_append, List.filter_cons_of_neg, filter_contains_after h hstop, List.append_nil]
    · exact ih (fun c hc => hle c (List.mem_append_left _ hc)) (List.pairwise_append.1 h).1
    · simpa using not_contains_of_lt_start hstart
  | case5 siblings middle after hd hstart hstart' =>
    rw [← List.take_append_drop (siblings.length / 2) siblings, hd] at h hle ⊢
    obtain rfl : middle.start = p := Std.le_antisymm (Std.not_lt.1 hstart') (Std.not_lt.1 hstart)
    exact filter_contains_eq_singleton h ⟨Position.le_refl _, hle middle (by simp)⟩

end Siblings

/-! ## The nodes that contain a position -/

theorem path_eq (p : Position) (n : Outline) :
    n.path p = n :: (search p n.children).toList.flatMap (path p) := by
  rw [path]
  split <;> simp_all

theorem path_of_search_eq_none (h : search p n.children = none) : n.path p = [n] := by
  rw [path_eq, h]
  rfl

theorem path_of_search_eq_some (h : search p n.children = some m) : n.path p = n :: m.path p := by
  rw [path_eq, h, Option.toList_some, List.flatMap_singleton]

theorem path_ne_nil (p : Position) (n : Outline) : n.path p ≠ [] := by
  rw [path_eq]
  exact List.cons_ne_nil _ _

/-- The nodes that contain `p`, outer ones first. -/
def trail (p : Position) (n : Outline) : List Outline := if n.Contains p then n.path p else []

theorem trail_of_contains (h : n.Contains p) : n.trail p = n.path p := if_pos h

theorem trail_of_not_contains (h : ¬ n.Contains p) : n.trail p = [] := if_neg h

namespace WellFormed

theorem filter_contains_children (h : n.WellFormed) :
    n.children.filter (·.Contains p) = (search p n.children).toList := by
  refine filter_contains_eq_search ?_ h.pairwise_children
  cases h with
  | intro _ _ _ children => exact fun c hc => (children c hc).start_le_stop

theorem contains_of_search {c : Outline} (h : n.WellFormed) (hc : search p n.children = some c) : c.Contains p := by
  have hmem : c ∈ n.children.filter (·.Contains p) := by simp [h.filter_contains_children, hc]
  simpa using (List.mem_filter.1 hmem).2

theorem covers_of_mem_children {c : Outline} (h : n.WellFormed) (hc : c ∈ n.children) :
    n.Covers c.start c.stop := by
  cases h with
  | intro _ inside => exact inside c hc

theorem covers_of_mem_nodes (h : n.WellFormed) {depth : Nat} {k : Outline × Nat} (hk : k ∈ n.nodes depth) :
    n.Covers k.1.start k.1.stop := by
  induction h generalizing depth with
  | intro start_le_stop inside _ _ ih =>
    rw [nodes_eq, List.mem_cons, List.mem_flatMap] at hk
    rcases hk with rfl | ⟨c, hc, hk⟩
    · exact covers_self _
    · exact (inside c hc).trans (ih c hc hk)

/-- Below a node, the nodes that contain `p` are in the child that the search finds. -/
theorem flatMap_zipIdx_trail (h : n.WellFormed) (depth : Nat) :
    n.children.flatMap (fun c => (c.trail p).zipIdx depth) =
      ((search p n.children).toList.flatMap (path p)).zipIdx depth := by
  have hfilter : n.children.flatMap (fun c => (c.trail p).zipIdx depth) =
      (n.children.filter (·.Contains p)).flatMap fun c => (c.path p).zipIdx depth := by
    induction n.children with
    | nil => rfl
    | cons c others ih => by_cases hc : c.Contains p <;> simp [trail_of_contains, trail_of_not_contains, hc, ih]
  rw [hfilter, h.filter_contains_children]
  cases search p n.children <;> simp

/-- Of all nodes, those on the path to a position are the ones that contain it. -/
theorem filter_contains_nodes (h : n.WellFormed) (depth : Nat) :
    (n.nodes depth).filter (·.1.Contains p) = (n.trail p).zipIdx depth := by
  induction h generalizing depth with
  | @intro n start_le_stop inside apart children ih =>
    have h : n.WellFormed := .intro start_le_stop inside apart children
    by_cases hn : n.Contains p
    · have hchildren : n.children.flatMap (fun c => (c.nodes (depth + 1)).filter (·.1.Contains p)) =
          n.children.flatMap fun c => (c.trail p).zipIdx (depth + 1) :=
        List.flatMap_congr fun c hc => ih c hc (depth + 1)
      rw [trail_of_contains hn, path_eq, List.zipIdx_cons, nodes_eq,
        List.filter_cons_of_pos (by simpa using hn), List.filter_flatMap, hchildren, h.flatMap_zipIdx_trail]
    · rw [trail_of_not_contains hn, List.zipIdx_nil, List.filter_eq_nil_iff]
      intro k hk hc
      exact hn ((h.covers_of_mem_nodes hk).trans (contains_iff_covers.1 (by simpa using hc)))

theorem mem_trail_iff (h : n.WellFormed) : m ∈ n.trail p ↔ m ∈ (n.nodes 0).map Prod.fst ∧ m.Contains p := by
  rw [← List.zipIdx_map_fst 0 (n.trail p), ← h.filter_contains_nodes 0]
  simp only [List.mem_map, List.mem_filter, decide_eq_true_eq]
  grind

theorem contains_of_mem_trail (h : n.WellFormed) (hm : m ∈ n.trail p) : m.Contains p := (h.mem_trail_iff.1 hm).2

theorem covers_of_mem_trail (h : n.WellFormed) (hm : m ∈ n.trail p) : n.Covers m.start m.stop := by
  obtain ⟨k, hk, rfl⟩ := List.mem_map.1 (h.mem_trail_iff.1 hm).1
  exact h.covers_of_mem_nodes hk

/-- On the way to a position each node lies inside the ones before it. -/
theorem pairwise_path (h : n.WellFormed) : (n.path p).Pairwise fun a b => a.Covers b.start b.stop := by
  induction h with
  | @intro n _ inside _ _ ih =>
    cases hs : search p n.children with
    | none =>
      rw [path_of_search_eq_none hs]
      exact List.pairwise_singleton ..
    | some c =>
      have hc : c ∈ n.children := mem_of_search hs
      have hpath := ih c hc
      rw [path_of_search_eq_some hs]
      refine .cons (fun b hb => (inside c hc).trans ?_) hpath
      rw [path_eq] at hpath hb
      rcases List.mem_cons.1 hb with rfl | hb
      · exact covers_self b
      · exact List.rel_of_pairwise_cons hpath hb

end WellFormed

/-! ## Going through all nodes -/

section Select

variable {α : Type} {xs : List (α × Nat)}

/-- Where every item is deeper than the ones before it, the last is the deepest. -/
theorem filter_le_eq_getLast? (h : xs.Pairwise (·.2 < ·.2)) :
    xs.filter (fun m => ∀ k ∈ xs, k.2 ≤ m.2) = xs.getLast?.toList := by
  rcases List.eq_nil_or_concat' xs with rfl | ⟨before, last, rfl⟩
  · rfl
  · have hlt : ∀ k ∈ before, k.2 < last.2 := fun k hk =>
      (List.pairwise_append.1 h).2.2 k hk last (List.mem_singleton_self last)
    rw [List.filter_append, List.filter_eq_nil_iff.2, List.filter_cons_of_pos]
    · simp
    · rw [decide_eq_true_eq, List.forall_mem_append]
      exact ⟨fun k hk => Nat.le_of_lt (hlt k hk), by simp⟩
    · intro m hm
      simp only [decide_eq_true_eq, not_forall, Nat.not_le]
      exact ⟨last, by simp, hlt m hm⟩

/-- Where every item is deeper than the ones before it, the first is the outermost. -/
theorem filter_ge_eq_head? (h : xs.Pairwise (·.2 < ·.2)) :
    xs.filter (fun m => ∀ k ∈ xs, m.2 ≤ k.2) = xs.head?.toList := by
  cases xs with
  | nil => rfl
  | cons first after =>
    have hlt : ∀ k ∈ after, first.2 < k.2 := fun k hk => List.rel_of_pairwise_cons h hk
    rw [List.filter_cons_of_pos, List.filter_eq_nil_iff.2]
    · rfl
    · intro m hm
      simp only [decide_eq_true_eq, not_forall, Nat.not_le]
      exact ⟨first, by simp, hlt m hm⟩
    · rw [decide_eq_true_eq, List.forall_mem_cons]
      exact ⟨Nat.le_refl _, fun k hk => Nat.le_of_lt (hlt k hk)⟩

end Select

namespace WellFormed

variable {P : Outline → Prop} [DecidablePred P]

theorem nodesWith_eq (h : n.WellFormed) (hP : ∀ m, P m → m.Contains p) :
    n.nodesWith P = ((n.trail p).zipIdx).filter (P ·.1) := by
  rw [nodesWith, ← h.filter_contains_nodes, List.filter_filter]
  refine List.filter_congr fun k _ => ?_
  simpa using hP k.1

theorem map_nodesWith (h : n.WellFormed) (hP : ∀ m, P m → m.Contains p) :
    (n.nodesWith P).map Prod.fst = (n.trail p).filter P := by
  conv_rhs => rw [← List.zipIdx_map_fst 0 (n.trail p), List.filter_map]
  rw [h.nodesWith_eq hP]
  rfl

/-- Nodes that contain one position are at different depths. -/
theorem pairwise_nodesWith (h : n.WellFormed) (hP : ∀ m, P m → m.Contains p) :
    (n.nodesWith P).Pairwise (·.2 < ·.2) := by
  rw [h.nodesWith_eq hP]
  apply List.Pairwise.filter
  rw [← List.pairwise_map, List.zipIdx_map_snd]
  exact List.pairwise_lt_range'

theorem deepest_eq (h : n.WellFormed) (hP : ∀ m, P m → m.Contains p) :
    n.deepest P = ((n.trail p).filter P).getLast?.toList := by
  rw [deepest, filter_le_eq_getLast? (h.pairwise_nodesWith hP), ← h.map_nodesWith hP,
    List.getLast?_map, Option.toList_map]

theorem outermost_eq (h : n.WellFormed) (hP : ∀ m, P m → m.Contains p) :
    n.outermost P = ((n.trail p).filter P).head?.toList := by
  rw [outermost, filter_ge_eq_head? (h.pairwise_nodesWith hP), ← h.map_nodesWith hP,
    List.head?_map, Option.toList_map]

end WellFormed

/-! ## The look-ups -/

/-- `m` contains `p`, and none of its children does. -/
def IsInnermost (p : Position) (m : Outline) : Prop := m.Contains p ∧ ∀ c ∈ m.children, ¬ c.Contains p

instance (p : Position) (m : Outline) : Decidable (m.IsInnermost p) := inferInstanceAs (Decidable (_ ∧ _))

namespace WellFormed

theorem isInnermost_iff (h : n.WellFormed) (hn : n.Contains p) :
    n.IsInnermost p ↔ search p n.children = none := by
  rw [IsInnermost, ← Option.toList_eq_nil_iff, ← h.filter_contains_children, List.filter_eq_nil_iff]
  simp [hn]

/-- Only the last node on the path is innermost. -/
theorem filter_isInnermost_path (h : n.WellFormed) (hn : n.Contains p) :
    (n.path p).filter (·.IsInnermost p) = (n.path p).getLast?.toList := by
  induction h with
  | @intro n start_le_stop inside apart children ih =>
    have h : n.WellFormed := .intro start_le_stop inside apart children
    cases hs : search p n.children with
    | none =>
      have hinner : n.IsInnermost p := (h.isInnermost_iff hn).2 hs
      simp [path_of_search_eq_none hs, hinner]
    | some c =>
      have hinner : ¬ n.IsInnermost p := by simp [h.isInnermost_iff hn, hs]
      rw [path_of_search_eq_some hs, List.filter_cons_of_neg (by simpa using hinner),
        ih c (mem_of_search hs) (h.contains_of_search hs), List.getLast?_cons_of_ne_nil (path_ne_nil p c)]

theorem filter_isInnermost_trail (h : n.WellFormed) :
    (n.trail p).filter (·.IsInnermost p) = (n.trail p).getLast?.toList := by
  by_cases hn : n.Contains p
  · rw [trail_of_contains hn, h.filter_isInnermost_path hn]
  · rw [trail_of_not_contains hn]
    rfl

theorem innermostAt_eq (h : n.WellFormed) : n.innermostAt p = (n.trail p).getLast? := by
  by_cases hn : n.Contains p
  · rw [innermostAt, ← trail_of_contains hn]
    cases hl : (n.trail p).getLast? with
    | none => rfl
    | some m => simpa using h.contains_of_mem_trail (List.mem_of_getLast? hl)
  · -- outside of the root the path is the root alone, which does not contain `p`
    have hs : search p n.children = none := by
      rw [Option.eq_none_iff_forall_ne_some]
      intro c hc
      exact hn ((h.covers_of_mem_children (mem_of_search hc)).trans (h.contains_of_search hc))
    simp [innermostAt, trail_of_not_contains hn, path_of_search_eq_none hs, hn]

theorem innermostAt_eq_none_iff (h : n.WellFormed) : n.innermostAt p = none ↔ ¬ n.Contains p := by
  rw [h.innermostAt_eq, List.getLast?_eq_none_iff]
  by_cases hn : n.Contains p
  · simp [trail_of_contains hn, path_ne_nil, hn]
  · simp [trail_of_not_contains hn, hn]

theorem isSome_innermostAt_iff (h : n.WellFormed) : (n.innermostAt p).isSome ↔ n.Contains p := by
  rw [Option.isSome_iff_ne_none, ne_eq, h.innermostAt_eq_none_iff, not_not]

theorem innermostCovering_eq (h : n.WellFormed) :
    n.innermostCovering start stop = ((n.trail start).filter (·.Covers start stop)).getLast? := by
  unfold innermostCovering trail
  simp only [h.isSome_innermostAt_iff]
  split
  · rw [List.getLast?_filter]
  · rfl

/-- Further out than a node that reaches over more than the range, no node spans it. -/
theorem filter_spans_takeWhile (h : n.WellFormed) :
    ((n.path p).reverse.takeWhile fun m => m.Spans start stop ∨ ¬ m.Covers start stop).filter
        (·.Spans start stop) = (n.path p).reverse.filter (·.Spans start stop) := by
  have hpath := List.pairwise_reverse.2 (h.pairwise_path (p := p))
  have hhead := List.head?_dropWhile_not (fun m => decide (m.Spans start stop ∨ ¬ m.Covers start stop))
    (n.path p).reverse
  rw [← List.takeWhile_append_dropWhile (p := fun m => m.Spans start stop ∨ ¬ m.Covers start stop)
    (l := (n.path p).reverse), List.pairwise_append] at hpath
  conv_rhs => rw [← List.takeWhile_append_dropWhile (p := fun m => m.Spans start stop ∨ ¬ m.Covers start stop)
    (l := (n.path p).reverse), List.filter_append]
  generalize (n.path p).reverse.dropWhile _ = outer at hpath hhead ⊢
  have houter : outer.filter (·.Spans start stop) = [] := by
    cases outer with
    | nil => rfl
    | cons k others =>
      simp only [List.head?_cons, decide_eq_false_iff_not, not_or, not_not] at hhead
      rw [List.filter_cons_of_neg (by simpa using hhead.1), List.filter_eq_nil_iff]
      intro m hm hspans
      have hcovers : m.Covers k.start k.stop := List.rel_of_pairwise_cons hpath.2.1 hm
      exact hhead.1 (Spans.of_covers (by simpa using hspans) hcovers hhead.2)
  rw [houter, List.append_nil]

theorem innermostCovering_eq_none_iff (h : n.WellFormed) (hle : start ≤ stop) :
    n.innermostCovering start stop = none ↔ ¬ n.Covers start stop := by
  rw [h.innermostCovering_eq, List.getLast?_eq_none_iff, List.filter_eq_nil_iff]
  constructor
  · intro hnone hn
    have hmem : n ∈ n.trail start := by
      rw [trail_of_contains (hn.contains hle), path_eq]
      exact List.mem_cons_self
    exact hnone n hmem (by simpa using hn)
  · intro hn m hm hcovers
    exact hn ((h.covers_of_mem_trail hm).trans (by simpa using hcovers))

theorem outermostSpanning_eq (h : n.WellFormed) :
    n.outermostSpanning start stop = ((n.trail start).filter (·.Spans start stop)).head? := by
  unfold outermostSpanning trail
  simp only [h.isSome_innermostAt_iff]
  split
  · rw [h.filter_spans_takeWhile, List.filter_reverse, List.getLast?_reverse]
  · rfl

/-! ## Main statements -/

/-- Looking up a position in a well-formed outline gives nothing exactly outside of the root. Inside it gives the
one node that contains the position and has no child that does, which is the one that going through all
nodes finds deepest. -/
theorem innermostAt_toList (h : n.WellFormed) (p : Position) :
    (n.innermostAt p = none ↔ ¬ n.Contains p) ∧
    (n.nodesWith (·.IsInnermost p)).map Prod.fst = (n.innermostAt p).toList ∧
    n.deepest (·.Contains p) = (n.innermostAt p).toList := by
  refine ⟨h.innermostAt_eq_none_iff, ?_, ?_⟩
  · rw [h.map_nodesWith fun m (hm : m.IsInnermost p) => hm.1, h.filter_isInnermost_trail, h.innermostAt_eq]
  · rw [h.deepest_eq fun m hm => hm, h.innermostAt_eq, List.filter_eq_self.2]
    simpa using fun m => h.contains_of_mem_trail

/-- Only the range of a leaf has to be in order. -/
theorem leaf {name : String} (hle : start ≤ stop) : WellFormed ⟨name, start, stop, []⟩ :=
  .intro hle (by simp) .nil (by simp)

/-- A class with its name and a method, as large as the text it stands in. -/
def classNode : Outline :=
  ⟨"class", ⟨1, 1⟩, ⟨5, 1⟩, [⟨"class-name", ⟨1, 7⟩, ⟨1, 9⟩, []⟩, ⟨"method", ⟨2, 5⟩, ⟨4, 5⟩, []⟩]⟩

/-- A text that is the class and nothing else. -/
def textNode : Outline := ⟨"text", ⟨1, 1⟩, ⟨5, 1⟩, [classNode]⟩

theorem textNode_wellFormed : textNode.WellFormed := by
  have hclass : classNode.WellFormed := by
    refine .intro (by decide) (by decide) (.cons_cons (by decide) (.singleton _)) ?_
    simp only [classNode, List.mem_cons, List.not_mem_nil, or_false, forall_eq_or_imp, forall_eq]
    exact ⟨leaf (by decide), leaf (by decide)⟩
  exact .intro (by decide) (by decide) (.singleton _) (by simpa [textNode] using hclass)

/-- Before the method, only the class is left of what stands in the text. -/
theorem innermostAt_toList_between_children :
    textNode.WellFormed ∧ textNode.innermostAt ⟨2, 1⟩ = some classNode ∧
      (textNode.nodesWith (·.IsInnermost ⟨2, 1⟩)).map Prod.fst = [classNode] := by
  obtain ⟨-, hinnermost, hdeepest⟩ := innermostAt_toList textNode_wellFormed ⟨2, 1⟩
  have hsome : textNode.innermostAt ⟨2, 1⟩ = some classNode := by
    rw [← Option.toList_eq_singleton_iff, ← hdeepest]
    rfl
  exact ⟨textNode_wellFormed, hsome, by rw [hinnermost, hsome, Option.toList_some]⟩

/-- Looking up a range in a well-formed outline gives the deepest of all nodes that cover it, and nothing exactly if
the root does not. Looking for just that range gives the outermost of all nodes that have it, and nothing exactly if
none does. -/
theorem covering_toList (h : n.WellFormed) {start stop : Position} (hle : start ≤ stop) :
    (n.innermostCovering start stop = none ↔ ¬ n.Covers start stop) ∧
    n.deepest (·.Covers start stop) = (n.innermostCovering start stop).toList ∧
    (n.outermostSpanning start stop = none ↔ ∀ m ∈ n.nodes 0, ¬ m.1.Spans start stop) ∧
    n.outermost (·.Spans start stop) = (n.outermostSpanning start stop).toList := by
  have hcontains : ∀ m : Outline, m.Covers start stop → m.Contains start := fun m hm => hm.contains hle
  have hspans : ∀ m : Outline, m.Spans start stop → m.Contains start := fun m hm => hm.covers.contains hle
  refine ⟨?_, ?_, ?_, ?_⟩
  · exact h.innermostCovering_eq_none_iff hle
  · rw [h.deepest_eq hcontains, h.innermostCovering_eq]
  · rw [h.outermostSpanning_eq, List.head?_eq_none_iff, ← h.map_nodesWith hspans, List.map_eq_nil_iff,
      nodesWith, List.filter_eq_nil_iff]
    simp
  · rw [h.outermost_eq hspans, h.outermostSpanning_eq]

/-- Two nodes have the range of the whole text: the class is the inner one and the text the outer one. -/
theorem covering_toList_whole_text :
    textNode.WellFormed ∧ (⟨1, 1⟩ : Position) ≤ ⟨5, 1⟩ ∧
      textNode.innermostCovering ⟨1, 1⟩ ⟨5, 1⟩ = some classNode ∧
      textNode.outermostSpanning ⟨1, 1⟩ ⟨5, 1⟩ = some textNode := by
  have hle : (⟨1, 1⟩ : Position) ≤ ⟨5, 1⟩ := by decide
  obtain ⟨-, hdeepest, -, houtermost⟩ := covering_toList textNode_wellFormed hle
  refine ⟨textNode_wellFormed, hle, ?_, ?_⟩
  · rw [← Option.toList_eq_singleton_iff, ← hdeepest]
    rfl
  · rw [← Option.toList_eq_singleton_iff, ← houtermost]
    rfl

end WellFormed

end LintFixture.Outline
