import LintFixture.Steps
import Mathlib.Data.List.Forall2

/-!
# Traversals that can fail

A traversal succeeds exactly when it does on every item, with the results in order.
It fails as it does on the first item on which it fails.
-/

namespace LintFixture

variable {ε α β γ : Type}

theorem mapM_eq_ok_iff {f : α → Except ε β} {xs : List α} {ys : List β} :
    xs.mapM f = .ok ys ↔ List.Forall₂ (fun x y => f x = .ok y) xs ys := by
  induction xs generalizing ys with
  | nil => simp [pure, Except.pure, eq_comm]
  | cons x xs ih =>
    rw [List.mapM_cons, List.forall₂_cons_left_iff]
    constructor
    · intro h
      cases hx : f x with
      | error e =>
        rw [hx] at h
        cases h
      | ok y =>
        cases hxs : xs.mapM f with
        | error e =>
          rw [hx, hxs] at h
          cases h
        | ok others =>
          rw [hx, hxs] at h
          exact ⟨y, others, rfl, ih.1 hxs, (Except.ok.inj h).symm⟩
    · rintro ⟨y, others, hx, hxs, rfl⟩
      rw [hx, ih.2 hxs]
      rfl

theorem mapM_congr {f : α → Except ε γ} {g : β → Except ε γ} {xs : List α} {ys : List β}
    (h : List.Forall₂ (fun x y => f x = g y) xs ys) : xs.mapM f = ys.mapM g := by
  induction h with
  | nil => rfl
  | cons hxy _ ih => rw [List.mapM_cons, List.mapM_cons, hxy, ih]

/-- A traversal fails on the first item on which it fails. -/
theorem mapM_eq_error_iff {f : α → Except ε β} {xs : List α} {e : ε} :
    xs.mapM f = .error e ↔
      ∃ before x after, xs = before ++ x :: after ∧ (∀ y ∈ before, ∃ b, f y = .ok b) ∧ f x = .error e := by
  induction xs with
  | nil => simp [pure, Except.pure]
  | cons x xs ih =>
    rw [List.mapM_cons]
    constructor
    · intro h
      cases hx : f x with
      | error own =>
        rw [hx] at h
        cases h
        exact ⟨[], x, xs, rfl, by simp, hx⟩
      | ok y =>
        cases hxs : xs.mapM f with
        | error own =>
          rw [hx, hxs] at h
          cases h
          obtain ⟨before, z, after, rfl, hbefore, hz⟩ := ih.1 hxs
          exact ⟨x :: before, z, after, rfl, List.forall_mem_cons.2 ⟨⟨y, hx⟩, hbefore⟩, hz⟩
        | ok others =>
          rw [hx, hxs] at h
          cases h
    · rintro ⟨before, z, after, hsplit, hbefore, hz⟩
      cases before with
      | nil =>
        obtain ⟨rfl, rfl⟩ := List.cons.inj hsplit
        rw [hz]
        rfl
      | cons w before =>
        obtain ⟨rfl, rfl⟩ := List.cons.inj hsplit
        obtain ⟨⟨y, hy⟩, hbefore⟩ := List.forall_mem_cons.1 hbefore
        rw [hy, ih.2 ⟨before, z, after, rfl, hbefore, hz⟩]
        rfl

/-- The same with the positions of the items, from `n` on. -/
theorem mapM_zipIdx_eq_error_iff {f : α × Nat → Except ε β} {xs : List α} {n : Nat} {e : ε} :
    (xs.zipIdx n).mapM f = .error e ↔
      ∃ before x after, xs = before ++ x :: after ∧ (∀ p ∈ before.zipIdx n, ∃ b, f p = .ok b) ∧
        f (x, n + before.length) = .error e := by
  rw [mapM_eq_error_iff]
  constructor
  · rintro ⟨front, p, back, hsplit, hfront, hp⟩
    obtain ⟨before, others, rfl, rfl, hothers⟩ := List.zipIdx_eq_append_iff.1 hsplit
    obtain ⟨x, after, rfl, rfl, -⟩ := List.zipIdx_eq_cons_iff.1 hothers.symm
    exact ⟨before, x, after, rfl, hfront, hp⟩
  · rintro ⟨before, x, after, rfl, hbefore, hx⟩
    exact ⟨before.zipIdx n, _, _, by rw [List.zipIdx_append, List.zipIdx_cons], hbefore, hx⟩

/-- The positions of the items do not matter to a relation of the items alone. -/
theorem forall₂_zipIdx_iff {R : α → β → Prop} {xs : List α} {ys : List β} {n : Nat} :
    List.Forall₂ (fun p y => R p.1 y) (xs.zipIdx n) ys ↔ List.Forall₂ R xs ys := by
  rw [← List.forall₂_map_left_iff (f := Prod.fst), List.zipIdx_map_fst]

theorem map_eq_map_iff_forall₂ {f : α → γ} {g : β → γ} {xs : List α} {ys : List β} :
    xs.map f = ys.map g ↔ List.Forall₂ (fun x y => f x = g y) xs ys := by
  rw [← List.forall₂_eq_eq_eq, List.forall₂_map_left_iff, List.forall₂_map_right_iff]

/-- Items related to one half of a pair each are related to a list of pairs. -/
theorem forall₂_exists_iff {R : α → β × γ → Prop} {xs : List α} {ys : List β} :
    List.Forall₂ (fun x y => ∃ z, R x (y, z)) xs ys ↔ ∃ ps, List.Forall₂ R xs ps ∧ ps.map Prod.fst = ys := by
  constructor
  · intro h
    induction h with
    | nil => exact ⟨[], .nil, rfl⟩
    | cons hxy _ ih =>
      obtain ⟨z, hz⟩ := hxy
      obtain ⟨ps, hps, rfl⟩ := ih
      exact ⟨_ :: ps, .cons hz hps, rfl⟩
  · rintro ⟨ps, hps, rfl⟩
    exact List.forall₂_map_right_iff.2 (hps.imp fun _ p hp => ⟨p.2, hp⟩)

theorem exists_of_mem_right {R : α → β → Prop} {xs : List α} {ys : List β} (h : List.Forall₂ R xs ys) {y : β}
    (hy : y ∈ ys) : ∃ x ∈ xs, R x y := by
  induction h with
  | nil => cases hy
  | cons hxy _ ih =>
    rcases List.mem_cons.1 hy with rfl | hy
    · exact ⟨_, List.mem_cons_self, hxy⟩
    · obtain ⟨x, hx, hR⟩ := ih hy
      exact ⟨x, List.mem_cons_of_mem _ hx, hR⟩

theorem exists_forall₂ {R : α → β → Prop} {xs : List α} (h : ∀ x ∈ xs, ∃ y, R x y) :
    ∃ ys, List.Forall₂ R xs ys := by
  induction xs with
  | nil => exact ⟨[], .nil⟩
  | cons x xs ih =>
    rw [List.forall_mem_cons] at h
    obtain ⟨y, hy⟩ := h.1
    obtain ⟨ys, hys⟩ := ih h.2
    exact ⟨y :: ys, .cons hy hys⟩

/-- A list is ordered as the list beside it is. -/
theorem pairwise_of_forall₂ {R : α → β → Prop} {S : α → α → Prop} {T : β → β → Prop} {xs : List α} {ys : List β}
    (hstep : ∀ {x x' y y'}, R x y → R x' y' → S x x' → T y y') (h : List.Forall₂ R xs ys) (hx : xs.Pairwise S) :
    ys.Pairwise T := by
  induction h with
  | nil => exact .nil
  | cons hxy hrest ih =>
    rw [List.pairwise_cons] at hx
    refine .cons (fun y' hy' => ?_) (ih hx.2)
    obtain ⟨x', hmem, hxy'⟩ := exists_of_mem_right hrest hy'
    exact hstep hxy hxy' (hx.1 x' hmem)

theorem forall₂_comp {R : α → β → Prop} {S : β → γ → Prop} {xs : List α} {ys : List β} {zs : List γ}
    (hR : List.Forall₂ R xs ys) (hS : List.Forall₂ S ys zs) :
    List.Forall₂ (fun x z => ∃ y, R x y ∧ S y z) xs zs := by
  induction hR generalizing zs with
  | nil =>
    obtain rfl := List.forall₂_nil_left_iff.1 hS
    exact .nil
  | cons hxy _ ih =>
    obtain ⟨z, zs, hyz, hzs, rfl⟩ := List.forall₂_cons_left_iff.1 hS
    exact .cons ⟨_, hxy, hyz⟩ (ih hzs)

theorem exists_forall₂_and {R : α → γ → Prop} {S : β → γ → Prop} {xs : List α} {ys : List β}
    (h : List.Forall₂ (fun x y => ∃ z, R x z ∧ S y z) xs ys) :
    ∃ zs, List.Forall₂ R xs zs ∧ List.Forall₂ S ys zs := by
  induction h with
  | nil => exact ⟨[], .nil, .nil⟩
  | cons hxy _ ih =>
    obtain ⟨z, hR, hS⟩ := hxy
    obtain ⟨zs, hRs, hSs⟩ := ih
    exact ⟨z :: zs, .cons hR hRs, .cons hS hSs⟩

end LintFixture
