import LintFixture.Text.Blank
import Mathlib.Data.List.DropRight

/-!
# Blanks at the ends of a text

Trimming takes away blanks only, and a trimmed text stays as it is.
-/

namespace LintFixture.Text

variable {s t : Text}

/-! ## Blank texts -/

@[simp] theorem allBlank_nil : allBlank [] = true := rfl

@[simp] theorem allBlank_cons (c : Char) (t : Text) : allBlank (c :: t) = (isBlank c && allBlank t) := rfl

@[simp] theorem allBlank_append (s t : Text) : allBlank (s ++ t) = (allBlank s && allBlank t) :=
  List.all_append

theorem allBlank_iff : allBlank t = true ↔ ∀ c ∈ t, isBlank c = true := List.all_eq_true

/-! ## The end of a text -/

theorem trimEnd_eq_rdropWhile (t : Text) : trimEnd t = t.rdropWhile isBlank := rfl

theorem trimEnd_eq_nil_iff : trimEnd t = [] ↔ allBlank t = true := by
  rw [trimEnd_eq_rdropWhile, List.rdropWhile_eq_nil_iff, allBlank_iff]

@[simp] theorem trimEnd_trimEnd (t : Text) : trimEnd (trimEnd t) = trimEnd t :=
  List.rdropWhile_idempotent _ t

theorem trimEnd_append_of_allBlank (h : allBlank s = true) : trimEnd (t ++ s) = trimEnd t := by
  rw [allBlank_iff] at h
  unfold trimEnd dropEndWhile
  rw [List.reverse_append, List.dropWhile_append_of_pos]
  intro c hc
  exact h c (List.mem_reverse.1 hc)

theorem trimEnd_append_of_not_allBlank (h : allBlank s = false) : trimEnd (t ++ s) = t ++ trimEnd s := by
  unfold trimEnd dropEndWhile
  rw [List.reverse_append, List.dropWhile_append, List.isEmpty_eq_false_iff.2, if_neg (by simp)]
  · simp
  · intro hn
    have := trimEnd_eq_nil_iff.1 (show trimEnd s = [] by simp [trimEnd, dropEndWhile, hn])
    simp [this] at h

/-- What is trimmed away is blank. -/
theorem exists_eq_trimEnd_append (t : Text) : ∃ s, allBlank s = true ∧ t = trimEnd t ++ s :=
  ⟨t.rtakeWhile isBlank, allBlank_iff.2 fun _ => List.mem_rtakeWhile_imp,
    List.rdropWhile_append_rtakeWhile.symm⟩

theorem allBlank_trimEnd (t : Text) : allBlank (trimEnd t) = allBlank t := by
  obtain ⟨s, hs, ht⟩ := exists_eq_trimEnd_append t
  conv_rhs => rw [ht]
  simp [hs]

theorem head?_trimEnd (h : allBlank t = false) : (trimEnd t).head? = t.head? := by
  obtain ⟨s, -, ht⟩ := exists_eq_trimEnd_append t
  have hne : trimEnd t ≠ [] := fun hn => by simp [trimEnd_eq_nil_iff.1 hn] at h
  conv_rhs => rw [ht, List.head?_append_of_ne_nil _ hne]

theorem not_mem_trimEnd {c : Char} (h : c ∉ t) : c ∉ trimEnd t := by
  obtain ⟨s, -, ht⟩ := exists_eq_trimEnd_append t
  exact fun hc => h (ht ▸ List.mem_append_left s hc)

theorem trimEnd_eq_self_iff : trimEnd t = t ↔ ∀ c, t.getLast? = some c → isBlank c = false := by
  rw [trimEnd_eq_rdropWhile, List.rdropWhile_eq_self_iff]
  cases t with
  | nil => simp
  | cons c t => simp [List.getLast?_eq_some_getLast]

/-- Trimming the end stops at a character that stands out. -/
theorem trimEnd_append_cons {c : Char} (hc : isBlank c = false) (s t : Text) :
    trimEnd (s ++ c :: t) = s ++ c :: trimEnd t := by
  rw [trimEnd_append_of_not_allBlank (by simp [hc])]
  cases ht : allBlank t with
  | true =>
    have hlast := trimEnd_append_of_allBlank (t := [c]) ht
    rw [List.singleton_append] at hlast
    rw [hlast, trimEnd_eq_nil_iff.2 ht, trimEnd_eq_self_iff.2 (by simp [hc])]
  | false => exact congrArg (s ++ ·) (trimEnd_append_of_not_allBlank (t := [c]) ht)

/-! ## Both ends -/

theorem trimStart_eq_self_iff : trimStart t = t ↔ ∀ c, t.head? = some c → isBlank c = false := by
  cases t with
  | nil => simp [trimStart]
  | cons c t =>
    cases hc : isBlank c with
    | false => simp [trimStart, hc]
    | true =>
      have := (List.dropWhile_suffix (l := t) isBlank).length_le
      simp only [trimStart, List.dropWhile_cons, hc, if_true, List.head?_cons, Option.some.injEq, forall_eq',
        Bool.true_eq_false, iff_false]
      intro h
      rw [h, List.length_cons] at this
      omega

theorem trimStart_append_of_allBlank (h : allBlank s = true) (t : Text) : trimStart (s ++ t) = trimStart t :=
  List.dropWhile_append_of_pos (allBlank_iff.1 h)

/-- Trimming the start stops at a character that stands out. -/
theorem trimStart_append_cons {c : Char} (hc : isBlank c = false) (s t : Text) :
    trimStart (s ++ c :: t) = trimStart s ++ c :: t := by
  induction s with
  | nil => simp [trimStart, hc]
  | cons d s ih =>
    cases hd : isBlank d with
    | true => simpa [trimStart, hd] using ih
    | false => simp [trimStart, hd]

theorem trimStart_trimStart (t : Text) : trimStart (trimStart t) = trimStart t :=
  List.dropWhile_idempotent ..

theorem allBlank_trimStart (t : Text) : allBlank (trimStart t) = allBlank t := by
  induction t with
  | nil => rfl
  | cons c t ih => by_cases hc : isBlank c = true <;> simp_all [trimStart]

/-- Trimming the end leaves the first character, if it leaves any. -/
theorem trimStart_trimEnd (h : trimStart t = t) : trimStart (trimEnd t) = trimEnd t := by
  rw [trimStart_eq_self_iff] at h ⊢
  intro c hc
  obtain ⟨s, -, ht⟩ := exists_eq_trimEnd_append t
  apply h c
  rw [ht, List.head?_append, hc, Option.some_or]

@[simp] theorem trim_trim (t : Text) : trim (trim t) = trim t := by
  rw [trim, trim, trimStart_trimEnd (trimStart_trimStart t), trimEnd_trimEnd]

theorem trim_eq_self_of_not_isBlank (h : ∀ c ∈ t, isBlank c = false) : trim t = t := by
  have hs : trimStart t = t := trimStart_eq_self_iff.2 fun c hc => h c (List.mem_of_mem_head? hc)
  rw [trim, hs, trimEnd_eq_self_iff]
  intro c hc
  exact h c (List.mem_of_getLast? hc)

/-! ## Blanks around a text -/

/-- The text is `core` with blanks at both ends. -/
def Pads (t core : Text) : Prop :=
  ∃ before after, allBlank before = true ∧ allBlank after = true ∧ t = before ++ core ++ after

theorem pads_trim (t : Text) : Pads t (trim t) := by
  obtain ⟨after, hafter, ht⟩ := exists_eq_trimEnd_append (trimStart t)
  refine ⟨t.takeWhile isBlank, after, allBlank_iff.2 fun _ => List.mem_takeWhile_imp, hafter, ?_⟩
  rw [List.append_assoc, trim, ← ht]
  exact List.takeWhile_append_dropWhile.symm

/-- Blanks at the ends do not matter to trimming. -/
theorem Pads.trim_eq {core : Text} (h : Pads t core) : trim t = trim core := by
  obtain ⟨before, after, hbefore, hafter, rfl⟩ := h
  rw [List.append_assoc, trim, trimStart_append_of_allBlank hbefore, trimStart, List.dropWhile_append]
  split
  · next hnil =>
    -- the core is blank, and so is all of it
    have hcore : trimStart core = [] := List.isEmpty_iff.1 hnil
    rw [trim, hcore]
    exact trimEnd_eq_nil_iff.2 ((allBlank_trimStart after).trans hafter)
  · exact trimEnd_append_of_allBlank hafter

end LintFixture.Text
