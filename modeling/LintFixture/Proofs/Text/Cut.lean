import LintFixture.Text.Basic

/-!
# The first occurrence of a mark

A mark is found where it first stands (`cut?_append_of_not_mem`), whatever follows it
(`cut?_of_cut?`), and a mark of one character divides a text in one way (`cut?_singleton_eq_some_iff`).
-/

namespace LintFixture.Text

theorem strip?_eq_none_iff {mark t : Text} : strip? mark t = none ↔ ¬ mark <+: t := by
  rw [Option.eq_none_iff_forall_not_mem]
  constructor
  · rintro h ⟨rest, rfl⟩
    exact h rest (strip?_eq_some_iff.2 rfl)
  · rintro h rest hrest
    exact h ⟨rest, (strip?_eq_some_iff.1 hrest).symm⟩

theorem strip?_append (mark rest : Text) : strip? mark (mark ++ rest) = some rest := strip?_eq_some_iff.2 rfl

/-- A text without the first character of a mark is cut at the mark that follows it. -/
theorem cut?_append_of_not_mem {m : Char} {t : Text} (mark rest : Text) (h : m ∉ t) :
    cut? (m :: mark) (t ++ (m :: mark ++ rest)) = some (t, rest) := by
  induction t with
  | nil => rw [List.nil_append, List.cons_append, cut?, ← List.cons_append, strip?_append]
  | cons c t ih =>
    rw [List.mem_cons, not_or] at h
    rw [List.cons_append, cut?, strip?, if_neg h.1]
    simp only
    rw [ih h.2]
    rfl

theorem not_infix_of_cut?_eq_none {mark t : Text} (h : cut? mark t = none) : ¬ mark <:+: t := by
  induction t with
  | nil =>
    rw [cut?, Option.map_eq_none_iff, strip?_eq_none_iff] at h
    rintro hi
    exact h (List.infix_nil.1 hi ▸ List.nil_prefix)
  | cons c t ih =>
    rw [cut?] at h
    cases hs : strip? mark (c :: t) with
    | some rest =>
      rw [hs] at h
      cases h
    | none =>
      rw [hs] at h
      rw [List.infix_cons_iff, not_or]
      exact ⟨strip?_eq_none_iff.1 hs, ih (Option.map_eq_none_iff.1 h)⟩

/-! ## The same cut with another rest -/

/-- A mark that is not at the front of a text that goes on far enough is not there when the rest changes. -/
theorem strip?_eq_none_of_append {mark t rest : Text} (rest' : Text) (hlen : mark.length ≤ t.length)
    (h : strip? mark (t ++ rest) = none) : strip? mark (t ++ rest') = none := by
  rw [strip?_eq_none_iff] at h ⊢
  intro hp
  exact h ((List.prefix_of_prefix_length_le hp (List.prefix_append t rest') hlen).trans (List.prefix_append t rest))

theorem cut?_of_cut? {mark t before rest : Text} (rest' : Text) (h : cut? mark t = some (before, rest)) :
    cut? mark (before ++ mark ++ rest') = some (before, rest') := by
  have ht := eq_of_cut? h
  induction before generalizing t with
  | nil =>
    rw [List.nil_append]
    cases mark with
    | nil => cases rest' <;> rfl
    | cons m mark => rw [List.cons_append, cut?, ← List.cons_append, strip?_append]
  | cons c before ih =>
    obtain rfl := ht
    simp only [List.cons_append] at h ⊢
    rw [cut?] at h ⊢
    cases hs : strip? mark (c :: (before ++ mark ++ rest)) with
    | some _ =>
      rw [hs] at h
      cases h
    | none =>
      have hs' : strip? mark (c :: (before ++ mark ++ rest')) = none := by
        apply strip?_eq_none_of_append (t := c :: (before ++ mark)) rest' _ hs
        simp only [List.length_cons, List.length_append]
        omega
      rw [hs] at h
      rw [hs']
      obtain ⟨⟨b, r⟩, hcut, heq⟩ := Option.map_eq_some_iff.1 h
      cases heq
      simp only [ih hcut rfl, Option.map_some]

/-! ## A single character -/

theorem not_mem_of_cut?_singleton {m : Char} {t before rest : Text} (h : cut? [m] t = some (before, rest)) :
    m ∉ before := by
  induction t generalizing before with
  | nil => cases h
  | cons c t ih =>
    rw [cut?, strip?] at h
    split at h
    · cases h
      exact List.not_mem_nil
    · next hstrip =>
      obtain ⟨⟨front, _⟩, hcut, heq⟩ := Option.map_eq_some_iff.1 h
      cases heq
      rw [List.mem_cons, not_or]
      refine ⟨?_, ih hcut⟩
      rintro rfl
      simp [strip?] at hstrip

theorem cut?_singleton_eq_some_iff {m : Char} {t before rest : Text} :
    cut? [m] t = some (before, rest) ↔ t = before ++ m :: rest ∧ m ∉ before := by
  constructor
  · intro h
    exact ⟨by simpa using eq_of_cut? h, not_mem_of_cut?_singleton h⟩
  · rintro ⟨rfl, hm⟩
    exact cut?_append_of_not_mem [] rest hm

end LintFixture.Text
