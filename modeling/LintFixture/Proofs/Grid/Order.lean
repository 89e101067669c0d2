import LintFixture.Proofs.Grid.Cells

/-!
# The order of offsets and positions

A later character has a later position, except that both characters of a carriage
return and line feed pair have the same one (`eq_iff_endsPair`). A later position
leads to the same character or to a later one. So both conversions keep the order
(`coordinates_inOrder`).
-/

namespace LintFixture.Grid

variable {t : Text} {m n : Nat} {p q : Position}

theorem pos_of_endsPair (h : endsPair t n = true) : 0 < n := by
  cases n with
  | zero => cases h
  | succ n => exact Nat.succ_pos n

theorem endsPair_succ_iff : endsPair t (n + 1) = true ↔ t[n]? = some '\r' ∧ t[n + 1]? = some '\n' := by
  simp [endsPair]

/-- The carriage return of a pair takes no room. -/
theorem eq_of_endsPair (hp : positionAt t m = .ok p) (hq : positionAt t (m + 1) = .ok q)
    (h : endsPair t (m + 1) = true) : p = q := by
  obtain ⟨hreturn, hfeed⟩ := endsPair_succ_iff.1 h
  have hnext := positionFrom_succ_of_getElem? (positionAt_eq_ok_iff.1 hp) hreturn
  rw [positionAt_eq_ok_iff, hnext] at hq
  simpa [Position.advance, columnPast, hfeed] using hq

/-- Of two offsets with one position the later one ends a pair that the earlier one begins. -/
theorem eq_iff_endsPair (h : m < n) (hp : positionAt t m = .ok p) (hq : positionAt t n = .ok q) :
    p = q ↔ n = m + 1 ∧ endsPair t n = true := by
  constructor
  · rintro rfl
    -- the position leads back to both offsets, or to the ones before them
    have hback : (if endsPair t m then m - 1 else m) = if endsPair t n then n - 1 else n :=
      Option.some.inj ((distance?_positionFrom (positionAt_eq_ok_iff.1 hp)).symm.trans
        (distance?_positionFrom (positionAt_eq_ok_iff.1 hq)))
    by_cases hends : endsPair t m = true
    · have hpos := pos_of_endsPair hends
      rw [if_pos hends] at hback
      split at hback <;> omega
    · rw [if_neg hends] at hback
      split at hback
      · next hpair => exact ⟨by omega, hpair⟩
      · omega
  · rintro ⟨rfl, hpair⟩
    exact eq_of_endsPair hp hq hpair

theorem offsetAt_mono (h : p ≤ q) (hm : offsetAt t p = .ok m) (hn : offsetAt t q = .ok n) : m ≤ n :=
  distance?_mono h (offsetAt_eq_ok_iff.1 hm).2.2 (offsetAt_eq_ok_iff.1 hn).2.2

/-! ## Main statement -/

/-- The offsets of a text and their positions come in the same order. -/
structure InOrder (t : Text) : Prop where
  /-- A later offset has a later position, or the same one if the two are those of a pair. -/
  positions : ∀ m n, m < n → n ≤ t.length → ∃ p q, positionAt t m = .ok p ∧ positionAt t n = .ok q ∧
    if n = m + 1 ∧ t[m]? = some '\r' ∧ t[n]? = some '\n' then p = q else p < q
  /-- A later position that has an offset has no earlier one. -/
  offsets : ∀ p q m n, p ≤ q → offsetAt t p = .ok m → offsetAt t q = .ok n → m ≤ n

/-- Both conversions keep the order. -/
theorem coordinates_inOrder (t : Text) : InOrder t where
  positions := by
    intro m n hmn hn
    obtain ⟨p, hp⟩ := exists_positionFrom .origin (Nat.le_trans (Nat.le_of_lt hmn) hn)
    obtain ⟨q, hq⟩ := exists_positionFrom .origin hn
    rw [← positionAt_eq_ok_iff] at hp hq
    have heq := eq_iff_endsPair hmn hp hq
    refine ⟨p, q, hp, hq, ?_⟩
    split
    · next hpair =>
      obtain ⟨rfl, hpair⟩ := hpair
      exact heq.2 ⟨rfl, endsPair_succ_iff.2 hpair⟩
    · next hpair =>
      have hne : p ≠ q := by
        intro h
        obtain ⟨rfl, hends⟩ := heq.1 h
        exact hpair ⟨rfl, endsPair_succ_iff.1 hends⟩
      exact Std.lt_of_le_of_ne (positionAt_mono hp hq (Nat.le_of_lt hmn)) hne
  offsets _ _ _ _ := offsetAt_mono

end LintFixture.Grid
