import LintFixture.Markup.Reference
import LintFixture.Proofs.Traversal
import Mathlib.Data.List.TakeWhile

/-!
# Escaping is undone by resolving

Every character is written as itself or as a named reference, so the written form
of a text holds no mark that ends a run or a quoted value, and resolving it gives
the text back (`unescape_escape`). Texts without broken references are resolved
one after the other (`unescape_append`).
-/

namespace LintFixture.Markup

namespace Reference

/-- Resolving a reference that stands for a character. -/
theorem expand_reference {offset : Nat} {body rest : Text} {c : Char} (hb : ∀ d ∈ body, isInside d = true)
    (hc : resolve (offset + 1) body = .ok c) :
    expand offset ('&' :: (body ++ ';' :: rest)) =
      (expand (offset + 1 + Text.byteLength body + 1) rest).map (c :: ·) := by
  have htake : (body ++ ';' :: rest).takeWhile isInside = body := by
    rw [List.takeWhile_append_of_pos hb, List.takeWhile_cons_of_neg (by decide), List.append_nil]
  have hdrop : (body ++ ';' :: rest).dropWhile isInside = ';' :: rest := by
    rw [List.dropWhile_append_of_pos hb, List.dropWhile_cons_of_neg (by decide)]
  rw [expand]
  simp only [if_true]
  split
  · next after heq =>
    rw [hdrop] at heq
    obtain rfl := (List.cons.inj heq).2
    rw [htake, hc]
    cases expand (offset + 1 + Text.byteLength body + 1) rest <;> rfl
  · next hne => exact absurd hdrop (hne rest)

/-- Any other character stands for itself. -/
theorem expand_cons {offset : Nat} {c : Char} {rest : Text} (h : c ≠ '&') :
    expand offset (c :: rest) = (expand (offset + c.utf8Size) rest).map (c :: ·) := by
  rw [expand, if_neg h]
  cases expand (offset + c.utf8Size) rest <;> rfl

/-- The characters that are never written as themselves. -/
def reserved : Text := ['<', '>', '&', '\x27', '\x22']

theorem isAlpha_of_reserved {c : Char} (h : c ∈ reserved) : c.isAlpha = false := by
  have hall : reserved.all (!·.isAlpha) = true := rfl
  simpa using List.all_eq_true.1 hall c h

/-- A character is written as itself, or as a reference by a name of letters. -/
theorem escapeChar_cases (c : Char) :
    (c ∉ reserved ∧ escapeChar c = [c]) ∨
    ∃ name, escapeChar c = '&' :: (name ++ [';']) ∧ name.all Char.isAlpha = true ∧
      ∀ offset, resolve offset name = .ok c := by
  by_cases h₁ : c = '<'
  · subst h₁
    exact .inr ⟨['l', 't'], rfl, rfl, fun _ => rfl⟩
  by_cases h₂ : c = '>'
  · subst h₂
    exact .inr ⟨['g', 't'], rfl, rfl, fun _ => rfl⟩
  by_cases h₃ : c = '&'
  · subst h₃
    exact .inr ⟨['a', 'm', 'p'], rfl, rfl, fun _ => rfl⟩
  by_cases h₄ : c = '\x27'
  · subst h₄
    exact .inr ⟨['a', 'p', 'o', 's'], rfl, rfl, fun _ => rfl⟩
  by_cases h₅ : c = '\x22'
  · subst h₅
    exact .inr ⟨['q', 'u', 'o', 't'], rfl, rfl, fun _ => rfl⟩
  · exact .inl ⟨by simp [reserved, h₁, h₂, h₃, h₄, h₅], by simp [escapeChar, h₁, h₂, h₃, h₄, h₅]⟩

theorem isInside_of_isAlpha {c : Char} (h : c.isAlpha = true) : isInside c = true := by
  have h₁ : c ≠ '&' := by rintro rfl; cases h
  have h₂ : c ≠ ';' := by rintro rfl; cases h
  simp [isInside, h₁, h₂]

theorem expand_escape (offset : Nat) (t : Text) : expand offset (escape t) = .ok t := by
  induction t generalizing offset with
  | nil => rw [escape, List.flatMap_nil, expand]
  | cons c t ih =>
    rw [escape, List.flatMap_cons, ← escape]
    rcases escapeChar_cases c with ⟨hc, he⟩ | ⟨name, he, hname, hr⟩
    · have hamp : c ≠ '&' := by
        rintro rfl
        simp [reserved] at hc
      rw [he, List.singleton_append, expand_cons hamp, ih]
      rfl
    · rw [he, List.cons_append, List.append_assoc, List.singleton_append,
        expand_reference (fun d hd => isInside_of_isAlpha (List.all_eq_true.1 hname d hd)) (hr _), ih]
      rfl

/-! ## One text after the other -/

/-- The character of a reference does not depend on where it stands. -/
theorem resolve_eq_ok {start : Nat} {body : Text} {c : Char} (h : resolve start body = .ok c) (start' : Nat) :
    resolve start' body = .ok c := by
  unfold resolve at h ⊢
  split at h
  · exact h
  · exact h
  · split at h
    · exact h
    · cases h

/-- A text whose references all resolve is resolved before what follows it. -/
theorem expand_append {offset : Nat} {left s : Text} (h : expand offset left = .ok s) (start : Nat) (right : Text) :
    expand start (left ++ right) = (expand (start + Text.byteLength left) right).map (s ++ ·) := by
  have hmap : ∀ (x : Except ReferenceFault Text) (c : Char) (tail : Text),
      (x.map (tail ++ ·)).map (c :: ·) = x.map ((c :: tail) ++ ·) := by
    intro x c tail
    cases x <;> rfl
  fun_induction expand offset left generalizing s start with
  | case1 =>
    cases h
    cases he : expand start right <;> simp [he, Except.map]
  | case2 offset rest body after hdrop =>
    next ih =>
      obtain ⟨c, hc, h⟩ := bind_eq_ok_iff.1 h
      obtain ⟨tail, htail, h⟩ := bind_eq_ok_iff.1 h
      cases h
      have hrest : rest = body ++ ';' :: after := by rw [← hdrop, List.takeWhile_append_dropWhile]
      have hbody : ∀ d ∈ body, isInside d = true := fun d hd => List.mem_takeWhile_imp hd
      have hlength : Text.byteLength ('&' :: rest) = 1 + Text.byteLength body + 1 + Text.byteLength after := by
        rw [hrest, ← List.cons_append, Text.byteLength_append, Nat.add_assoc _ 1]
        rfl
      rw [hlength, hrest, List.cons_append, List.append_assoc, List.cons_append,
        expand_reference hbody (resolve_eq_ok hc _), ih htail, hmap]
      simp only [Nat.add_assoc]
  | case3 => cases h
  | case4 offset c rest hc ih =>
    obtain ⟨tail, htail, h⟩ := bind_eq_ok_iff.1 h
    cases h
    rw [List.cons_append, expand_cons hc, ih htail, hmap]
    simp [Nat.add_assoc]

end Reference

open Reference

/-- Texts one after the other are resolved one after the other. -/
theorem unescape_append {left right s t : Text} (hs : unescape left = .ok s) (ht : unescape right = .ok t) :
    unescape (left ++ right) = .ok (s ++ t) := by
  have hright : ∀ start, expand start right = .ok t := by
    intro start
    have hself := expand_append ht start []
    rw [List.append_nil, expand] at hself
    rw [hself]
    simp [Except.map]
  rw [unescape, expand_append hs, hright]
  rfl

/-- Resolving the references of a written text gives the text back. -/
theorem unescape_escape (t : Text) : unescape (escape t) = .ok t := expand_escape 0 t

/-- A written text holds only the reserved characters that references begin with. -/
theorem not_mem_escape {d : Char} (h : d ∈ reserved) (hd : d ≠ '&') (t : Text) : d ∉ escape t := by
  unfold escape
  rw [List.mem_flatMap]
  rintro ⟨c, -, hc⟩
  rcases escapeChar_cases c with ⟨hn, he⟩ | ⟨name, he, hname, -⟩
  · rw [he, List.mem_singleton] at hc
    exact hn (hc ▸ h)
  · rw [he, List.mem_cons, List.mem_append, List.mem_singleton] at hc
    rcases hc with hc | hc | rfl
    · exact hd hc
    · exact absurd (List.all_eq_true.1 hname d hc) (by simp [isAlpha_of_reserved h])
    · exact absurd h (by decide)

end LintFixture.Markup
