import Mathlib.Data.List.Forall2

/-!
# Runs that agree

Two runs agree when both succeed with related results or both fail for related
reasons (`Agree`). Steps that agree do so one after the other (`Agree.bind`) and
along lists of related items (`Agree.mapM`). What is searched for in such lists is
found in both or in neither.
-/

namespace LintFixture

variable {ε ε' α α' β β' : Type}

/-- Both runs succeed with results related by `R`, or both fail for reasons related by `E`. -/
inductive Agree (E : ε → ε' → Prop) (R : α → α' → Prop) : Except ε α → Except ε' α' → Prop
  | ok {a : α} {a' : α'} (h : R a a') : Agree E R (.ok a) (.ok a')
  | error {e : ε} {e' : ε'} (h : E e e') : Agree E R (.error e) (.error e')

namespace Agree

variable {E : ε → ε' → Prop} {R : α → α' → Prop} {S : β → β' → Prop}

theorem bind {x : Except ε α} {x' : Except ε' α'} {f : α → Except ε β} {f' : α' → Except ε' β'}
    (h : Agree E R x x') (hf : ∀ a a', R a a' → Agree E S (f a) (f' a')) : Agree E S (x >>= f) (x' >>= f') := by
  cases h with
  | ok hR => exact hf _ _ hR
  | error hE => exact .error hE

theorem map {x : Except ε α} {x' : Except ε' α'} {f : α → β} {f' : α' → β'} (h : Agree E R x x')
    (hf : ∀ a a', R a a' → S (f a) (f' a')) : Agree E S (x.map f) (x'.map f') := by
  cases h with
  | ok hR => exact .ok (hf _ _ hR)
  | error hE => exact .error hE

/-- Traversals agree when they agree on related items. -/
theorem mapM {f : α → Except ε β} {f' : α' → Except ε' β} {xs : List α} {ys : List α'} (h : List.Forall₂ R xs ys)
    (hf : ∀ x y, R x y → Agree E (· = ·) (f x) (f' y)) : Agree E (· = ·) (xs.mapM f) (ys.mapM f') := by
  induction h with
  | nil => exact .ok rfl
  | cons hxy _ ih =>
    rw [List.mapM_cons, List.mapM_cons]
    refine (hf _ _ hxy).bind ?_
    rintro first _ rfl
    refine ih.bind ?_
    rintro others _ rfl
    exact .ok rfl

end Agree

/-! ## Lists of related items -/

variable {R : α → β → Prop}

theorem forall₂_filter {p : α → Bool} {q : β → Bool} (hpq : ∀ x y, R x y → p x = q y) {xs : List α} {ys : List β}
    (h : List.Forall₂ R xs ys) : List.Forall₂ (fun x y => R x y ∧ p x = true) (xs.filter p) (ys.filter q) := by
  induction h with
  | nil => exact .nil
  | @cons x y _ _ hxy _ ih =>
    cases hp : p x with
    | true =>
      rw [List.filter_cons_of_pos hp, List.filter_cons_of_pos (hpq x y hxy ▸ hp)]
      exact .cons ⟨hxy, hp⟩ ih
    | false =>
      rw [List.filter_cons_of_neg (by simp [hp]), List.filter_cons_of_neg (by simp [← hpq x y hxy, hp])]
      exact ih

/-- The first item of some kind is found in both lists or in neither. -/
theorem rel_find? {p : α → Bool} {q : β → Bool} (hpq : ∀ x y, R x y → p x = q y) {xs : List α} {ys : List β}
    (h : List.Forall₂ R xs ys) : Option.Rel (fun x y => R x y ∧ p x = true) (xs.find? p) (ys.find? q) := by
  induction h with
  | nil => exact .none
  | @cons x y _ _ hxy _ ih =>
    cases hp : p x with
    | true =>
      rw [List.find?_cons_of_pos hp, List.find?_cons_of_pos (hpq x y hxy ▸ hp)]
      exact .some ⟨hxy, hp⟩
    | false =>
      rw [List.find?_cons_of_neg (by simp [hp]), List.find?_cons_of_neg (by simp [← hpq x y hxy, hp])]
      exact ih

theorem forall₂_zipIdx {xs : List α} {ys : List β} (h : List.Forall₂ R xs ys) (n : Nat) :
    List.Forall₂ (fun p q => R p.1 q.1 ∧ p.2 = q.2) (xs.zipIdx n) (ys.zipIdx n) := by
  induction h generalizing n with
  | nil => exact .nil
  | cons hxy _ ih => exact .cons ⟨hxy, rfl⟩ (ih (n + 1))

end LintFixture
