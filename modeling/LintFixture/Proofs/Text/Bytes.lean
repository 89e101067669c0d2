import LintFixture.Text.Basic

/-!
# The bytes of a part

A part of a text is found again by the bytes before it and its own bytes.
-/

namespace LintFixture.Text

theorem exists_byteLength_cons (c : Char) (s : Text) : ∃ n, byteLength (c :: s) = n + 1 :=
  Nat.exists_eq_add_one.2 (Nat.add_pos_left c.utf8Size_pos _)

theorem dropBytes?_append (s t : Text) : dropBytes? (s ++ t) (byteLength s) = some t := by
  induction s with
  | nil => cases t <;> rfl
  | cons c s ih =>
    obtain ⟨n, hn⟩ := exists_byteLength_cons c s
    rw [hn, List.cons_append, dropBytes?, ← hn, byteLength_cons, if_pos (Nat.le_add_right _ _), Nat.add_sub_cancel_left,
      ih]

theorem takeBytes?_append (s t : Text) : takeBytes? (s ++ t) (byteLength s) = some s := by
  induction s with
  | nil => cases t <;> rfl
  | cons c s ih =>
    obtain ⟨n, hn⟩ := exists_byteLength_cons c s
    rw [hn, List.cons_append, takeBytes?, ← hn, byteLength_cons, if_pos (Nat.le_add_right _ _), Nat.add_sub_cancel_left,
      ih, Option.map_some]

/-- The bytes of the middle part are the middle part. -/
theorem sliceBytes?_append (before t after : Text) :
    sliceBytes? (before ++ t ++ after) (byteLength before) (byteLength before + byteLength t) = some t := by
  rw [sliceBytes?, if_pos (Nat.le_add_right _ _), List.append_assoc, dropBytes?_append, Nat.add_sub_cancel_left]
  exact takeBytes?_append t after

/-- Bytes taken from the front are a front part of that length. -/
theorem eq_append_of_takeBytes? {t front : Text} {n : Nat} (h : takeBytes? t n = some front) :
    ∃ rest, t = front ++ rest ∧ byteLength front = n := by
  fun_induction takeBytes? t n generalizing front with
  | case1 t =>
    obtain rfl := Option.some.inj h
    exact ⟨t, rfl, rfl⟩
  | case2 => cases h
  | case3 c t n hle ih =>
    obtain ⟨front, hfront, rfl⟩ := Option.map_eq_some_iff.1 h
    obtain ⟨rest, rfl, hlength⟩ := ih hfront
    refine ⟨rest, rfl, ?_⟩
    rw [byteLength_cons, hlength]
    omega
  | case4 => cases h

end LintFixture.Text
