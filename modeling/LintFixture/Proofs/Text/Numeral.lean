import LintFixture.Text.Numeral
import LintFixture.Proofs.Text.Trim

/-!
# Reading decimal numerals

A reader with a bound accepts exactly the digits whose number is within the bound
(`extend_eq_ok_iff`), so sizes are read from their numerals and from nothing else
(`readSize_eq_ok_iff`), and what `Text.ofNat` wrote is read back.
-/

namespace LintFixture

/-! ## The characters of a numeral -/

namespace Text

theorem ofNat_ne_nil (n : Nat) : ofNat n ≠ [] := Nat.toDigits_ne_nil

theorem isDigit_of_mem_ofNat {n : Nat} {c : Char} (h : c ∈ ofNat n) : c.isDigit = true :=
  Nat.isDigit_of_mem_toDigits (by decide) (by decide) h

theorem isBlank_eq_false_of_isDigit {c : Char} (h : c.isDigit = true) : isBlank c = false := by
  have hc := Char.isDigit_iff_toNat.1 h
  simp only [Char.reduceToNat] at hc
  simp only [isBlank, Bool.or_eq_false_iff, Bool.and_eq_false_iff, decide_eq_false_iff_not,
    beq_eq_false_iff_ne]
  omega

theorem trim_ofNat (n : Nat) : trim (ofNat n) = ofNat n :=
  trim_eq_self_of_not_isBlank fun _ hc => isBlank_eq_false_of_isDigit (isDigit_of_mem_ofNat hc)

end Text

/-! ## Reading -/

namespace Numeral

theorem digit?_of_isDigit {c : Char} (h : c.isDigit = true) : digit? 10 c = some (c.toNat - '0'.toNat) := by
  have hc := Char.isDigit_iff_toNat.1 h
  have hle : '0' ≤ c ∧ c ≤ '9' := hc
  simp only [Char.reduceToNat] at hc ⊢
  simp only [digit?, if_pos hle, Option.filter_some, Char.reduceToNat]
  rw [if_pos (by simp only [decide_eq_true_eq]; omega)]

theorem isDigit_of_digit? {c : Char} {d : Nat} (h : digit? 10 c = some d) : c.isDigit = true := by
  unfold digit? at h
  rw [Option.filter_eq_some_iff] at h
  obtain ⟨h, hd⟩ := h
  rw [Char.isDigit_iff_toNat]
  split at h
  · next hc => exact hc
  · split at h
    · simp only [Option.some.injEq, decide_eq_true_eq] at h hd
      omega
    · split at h
      · simp only [Option.some.injEq, decide_eq_true_eq] at h hd
        omega
      · cases h

theorem le_ofDigitChars (value : Nat) (digits : Text) : value ≤ Nat.ofDigitChars 10 digits value := by
  induction digits generalizing value with
  | nil => simp
  | cons c digits ih =>
    rw [Nat.ofDigitChars_cons]
    have := ih (10 * value + (c.toNat - '0'.toNat))
    omega

/-- Extending accepts exactly the digits that keep the number within the limit. -/
theorem extend_eq_ok_iff {limit value n : Nat} {digits : Text} (hv : value ≤ limit) :
    extend 10 limit value digits = .ok n ↔
      (∀ c ∈ digits, c.isDigit = true) ∧ Nat.ofDigitChars 10 digits value = n ∧ n ≤ limit := by
  induction digits generalizing value with
  | nil =>
    simp only [extend, Except.ok.injEq, List.not_mem_nil, false_imp_iff, implies_true, true_and,
      Nat.ofDigitChars_nil]
    constructor
    · rintro rfl
      exact ⟨rfl, hv⟩
    · exact And.left
  | cons c digits ih =>
    rw [Nat.ofDigitChars_cons, List.forall_mem_cons, extend]
    cases hd : digit? 10 c with
    | none =>
      simp only [reduceCtorEq, false_iff]
      rintro ⟨⟨hc, -⟩, -⟩
      rw [digit?_of_isDigit hc] at hd
      cases hd
    | some d =>
      have hc := isDigit_of_digit? hd
      rw [digit?_of_isDigit hc, Option.some.injEq] at hd
      simp only [hc, true_and, Nat.mul_comm value 10, hd]
      split
      · next hlt =>
        simp only [reduceCtorEq, false_iff]
        rintro ⟨-, rfl, hn⟩
        exact absurd (Nat.le_trans (le_ofDigitChars _ digits) hn) (by omega)
      · next hle => exact ih (by omega)

/-- The text is a decimal numeral of `n`: digits, which a plus sign may precede. -/
def Denotes (t : Text) (n : Nat) : Prop :=
  ∃ digits : Text, (t = digits ∨ t = '+' :: digits) ∧ digits ≠ [] ∧ (∀ c ∈ digits, c.isDigit = true) ∧
    Nat.ofDigitChars 10 digits 0 = n

theorem read_eq_ok_iff {limit n : Nat} {digits : Text} :
    read 10 limit digits = .ok n ↔
      digits ≠ [] ∧ (∀ c ∈ digits, c.isDigit = true) ∧ Nat.ofDigitChars 10 digits 0 = n ∧ n ≤ limit := by
  cases digits with
  | nil => simp [read]
  | cons c digits => simp [read, extend_eq_ok_iff (Nat.zero_le limit)]

/-- A size is read from its numerals and from nothing else. -/
theorem readSize_eq_ok_iff {t : Text} {n : Nat} : readSize t = .ok n ↔ Denotes t n ∧ n ≤ maxSize := by
  have hunsigned : ∀ t : Text, read 10 maxSize t = .ok n → Denotes t n ∧ n ≤ maxSize := by
    intro t h
    obtain ⟨hne, hdigits, hn, hle⟩ := read_eq_ok_iff.1 h
    exact ⟨⟨t, .inl rfl, hne, hdigits, hn⟩, hle⟩
  unfold readSize
  constructor
  · intro h
    split at h
    · next d rest =>
      obtain ⟨⟨digits, hd, hne, hdigits, hn⟩, hle⟩ := hunsigned _ h
      rcases hd with rfl | hd
      · exact ⟨⟨_, .inr rfl, hne, hdigits, hn⟩, hle⟩
      · -- after the sign that was read, another one is no digit
        obtain ⟨rfl, -⟩ := List.cons.inj hd
        have := (read_eq_ok_iff.1 h).2.1 '+' List.mem_cons_self
        cases this
    · exact hunsigned t h
  · rintro ⟨⟨digits, rfl | rfl, hne, hdigits, hn⟩, hle⟩
    · split
      · next d rest => exact absurd (hdigits '+' List.mem_cons_self) (by decide)
      · exact read_eq_ok_iff.2 ⟨hne, hdigits, hn, hle⟩
    · obtain ⟨d, digits, rfl⟩ := List.exists_cons_of_ne_nil hne
      exact read_eq_ok_iff.2 ⟨hne, hdigits, hn, hle⟩

/-- A written number is a numeral of itself and of no other number. -/
theorem denotes_ofNat_iff {n m : Nat} : Denotes (Text.ofNat n) m ↔ m = n := by
  constructor
  · rintro ⟨digits, hd, -, -, hm⟩
    rcases hd with rfl | hd
    · exact hm.symm.trans Nat.ofDigitChars_ten_toDigits
    · have hplus : '+' ∈ Text.ofNat n := hd ▸ List.mem_cons_self
      cases Text.isDigit_of_mem_ofNat hplus
  · rintro rfl
    exact ⟨Text.ofNat m, .inl rfl, Text.ofNat_ne_nil m, fun _ => Text.isDigit_of_mem_ofNat,
      Nat.ofDigitChars_ten_toDigits⟩

theorem readSize_ofNat {n : Nat} (h : n ≤ maxSize) : readSize (Text.ofNat n) = .ok n :=
  readSize_eq_ok_iff.2 ⟨denotes_ofNat_iff.2 rfl, h⟩

end Numeral

end LintFixture
