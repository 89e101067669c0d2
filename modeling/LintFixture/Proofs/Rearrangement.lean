import Mathlib.Data.Fintype.EquivFin
import Mathlib.Data.Fintype.Fin
import Mathlib.Data.List.FinRange
import Mathlib.Data.List.Forall2

/-!
# Rearranged lists

The items of two lists can be paired one to one exactly when the items of the one match
a rearrangement of the other, in order (`paired_iff`). A stable sort leaves ties as they
stand, so what it gives depends on the items of each tie and their order alone
(`mergeSort_eq_mergeSort_iff`).
-/

namespace LintFixture

variable {α β : Type}

/-! ## Pairings -/

/-- The items of two lists are paired one to one, and the items of each pair are related. -/
def Paired (R : α → β → Prop) (xs : List α) (ys : List β) : Prop :=
  ∃ pairing : Fin xs.length ≃ Fin ys.length, ∀ i, R (xs.get i) (ys.get (pairing i))

/-- A rearrangement moves each place to one with the same item. -/
theorem exists_equiv_of_perm [DecidableEq α] {xs ys : List α} (h : xs.Perm ys) :
    ∃ pairing : Fin xs.length ≃ Fin ys.length, ∀ i, ys.get (pairing i) = xs.get i := by
  have hcard : ∀ a, Fintype.card {i // xs.get i = a} = Fintype.card {i // ys.get i = a} := by
    intro a
    rw [Fintype.card_subtype, Fintype.card_subtype]
    calc (Finset.univ.filter fun i => xs.get i = a).card = xs.count a :=
          Fin.card_filter_univ_eq_vector_get_eq_count a ⟨xs, rfl⟩
      _ = ys.count a := h.count_eq a
      _ = (Finset.univ.filter fun i => ys.get i = a).card :=
          (Fin.card_filter_univ_eq_vector_get_eq_count a ⟨ys, rfl⟩).symm
  exact ⟨Equiv.ofFiberEquiv fun a => Fintype.equivOfCardEq (hcard a), Equiv.ofFiberEquiv_map _⟩

theorem Paired.perm [DecidableEq α] [DecidableEq β] {R : α → β → Prop} {xs xs' : List α} {ys ys' : List β}
    (h : Paired R xs ys) (hx : xs'.Perm xs) (hy : ys.Perm ys') : Paired R xs' ys' := by
  obtain ⟨pairing, h⟩ := h
  obtain ⟨before, hbefore⟩ := exists_equiv_of_perm hx
  obtain ⟨after, hafter⟩ := exists_equiv_of_perm hy
  refine ⟨before.trans (pairing.trans after), fun i => ?_⟩
  rw [Equiv.trans_apply, Equiv.trans_apply, hafter, ← hbefore]
  exact h _

/-- The second items, rearranged, stand beside their partners. -/
theorem paired_iff [DecidableEq β] {R : α → β → Prop} {xs : List α} {ys : List β} :
    Paired R xs ys ↔ ∃ zs, List.Forall₂ R xs zs ∧ zs.Perm ys := by
  constructor
  · rintro ⟨pairing, h⟩
    have hplaces : ((List.finRange xs.length).map pairing).Perm (List.finRange ys.length) := by
      refine (List.perm_ext_iff_of_nodup ?_ (List.nodup_finRange _)).2 fun i => ?_
      · exact (List.nodup_finRange _).map pairing.injective
      · simp [List.mem_finRange, pairing.surjective i]
    refine ⟨(List.finRange xs.length).map fun i => ys.get (pairing i), ?_, ?_⟩
    · have hall : List.Forall₂ R ((List.finRange xs.length).map xs.get)
          ((List.finRange xs.length).map fun i => ys.get (pairing i)) := by
        rw [List.forall₂_map_left_iff, List.forall₂_map_right_iff, List.forall₂_same]
        exact fun i _ => h i
      rwa [List.map_get_finRange] at hall
    · have hmoved := hplaces.map ys.get
      rwa [List.map_get_finRange, List.map_map] at hmoved
  · rintro ⟨zs, hall, hperm⟩
    obtain ⟨moved, hmoved⟩ := exists_equiv_of_perm hperm
    refine ⟨(finCongr hall.length_eq).trans moved, fun i => ?_⟩
    rw [Equiv.trans_apply, hmoved]
    exact (List.forall₂_iff_get.1 hall).2 i i.2 _

/-! ## Stable sorting -/

section

variable {le : α → α → Bool} (trans : ∀ a b c, le a b = true → le b c = true → le a c = true)
  (total : ∀ a b, (le a b || le b a) = true)

include trans total

/-- Items that tie with each other stay in their order. -/
theorem filter_mergeSort {p : α → Bool} (hp : ∀ a b, p a = true → p b = true → le a b = true) (xs : List α) :
    (xs.mergeSort le).filter p = xs.filter p := by
  have hsorted : (xs.filter p).Pairwise fun a b => le a b = true :=
    List.pairwise_filter.2 (List.pairwise_of_forall fun a b ha hb => hp a b ha hb)
  have hsublist := (List.sublist_mergeSort trans total hsorted List.filter_sublist).filter p
  rw [List.filter_filter] at hsublist
  simp only [Bool.and_self] at hsublist
  exact (hsublist.eq_of_length ((List.mergeSort_perm xs le).filter p).length_eq.symm).symm

omit trans in
/-- A sorted list is its ties, one after another. -/
theorem eq_of_sorted {xs ys : List α} (hx : xs.Pairwise fun a b => le a b = true)
    (hy : ys.Pairwise fun a b => le a b = true)
    (h : ∀ a, xs.filter (fun b => le a b && le b a) = ys.filter fun b => le a b && le b a) : xs = ys := by
  have hrefl : ∀ a, le a a = true := fun a => by simpa using total a a
  induction xs generalizing ys with
  | nil =>
    cases ys with
    | nil => rfl
    | cons y ys => simpa [hrefl y] using h y
  | cons x xs ih =>
    cases ys with
    | nil => simpa [hrefl x] using h x
    | cons y ys =>
      rw [List.pairwise_cons] at hx hy
      -- each head is in the other list, so the heads tie and are the first of their tie
      have hmem : ∀ a, a ∈ x :: xs ↔ a ∈ y :: ys := by
        intro a
        simpa [List.mem_filter, hrefl a] using congrArg (a ∈ ·) (h a)
      have hyx : le y x = true := by
        rcases List.mem_cons.1 ((hmem x).1 List.mem_cons_self) with rfl | hmem
        · exact hrefl x
        · exact hy.1 x hmem
      have hxy : le x y = true := by
        rcases List.mem_cons.1 ((hmem y).2 List.mem_cons_self) with rfl | hmem
        · exact hrefl y
        · exact hx.1 y hmem
      have heq : x = y := by
        have hx := h x
        simp only [List.filter_cons, hrefl, hxy, hyx, Bool.and_self, if_true] at hx
        exact (List.cons.inj hx).1
      subst heq
      refine congrArg (x :: ·) (ih hx.2 hy.2 fun a => ?_)
      have ha := h a
      simp only [List.filter_cons] at ha
      split at ha
      · exact List.cons.inj ha |>.2
      · exact ha

/-- Sorting gives the same for two lists exactly when each tie has the same items in the same order. -/
theorem mergeSort_eq_mergeSort_iff {xs ys : List α} :
    xs.mergeSort le = ys.mergeSort le ↔
      ∀ a, xs.filter (fun b => le a b && le b a) = ys.filter fun b => le a b && le b a := by
  have htie : ∀ a (zs : List α), (zs.mergeSort le).filter (fun b => le a b && le b a) =
      zs.filter fun b => le a b && le b a := by
    refine fun a zs => filter_mergeSort trans total (fun b c hb hc => ?_) zs
    rw [Bool.and_eq_true] at hb hc
    exact trans b a c hb.2 hc.1
  constructor
  · intro h a
    rw [← htie a xs, h, htie a ys]
  · intro h
    refine eq_of_sorted total (List.pairwise_mergeSort trans total _)
      (List.pairwise_mergeSort trans total _) fun a => ?_
    rw [htie a xs, h a, htie a ys]

end

end LintFixture
