import LintFixture.Markup.Token
import Mathlib.Data.List.TakeWhile

/-!
# Reading one token

A token is read from its source when the mark that ends it is found at its end and
not before: one lemma for each kind of token, with any text behind it.
-/

namespace LintFixture

/-! ## Runs of characters -/

namespace Text

variable {p : Char → Bool} {run rest : Text}

theorem takeWhile_run_append (hrun : ∀ c ∈ run, p c = true) (hrest : ∀ c, rest.head? = some c → p c = false) :
    (run ++ rest).takeWhile p = run := by
  rw [List.takeWhile_append_of_pos hrun]
  cases rest with
  | nil => exact List.append_nil run
  | cons c rest => rw [List.takeWhile_cons_of_neg (by simp [hrest c rfl]), List.append_nil]

theorem dropWhile_run_append (hrun : ∀ c ∈ run, p c = true) (hrest : ∀ c, rest.head? = some c → p c = false) :
    (run ++ rest).dropWhile p = rest := by
  rw [List.dropWhile_append_of_pos hrun]
  cases rest with
  | nil => rfl
  | cons c rest => rw [List.dropWhile_cons_of_neg (by simp [hrest c rfl])]

end Text

/-! ## Tokens -/

namespace Markup.Token

variable {body content rest : Text}

theorem read_cdata (h : Text.cut? [']', ']', '>'] (body ++ [']', ']', '>'] ++ rest) = some (body, rest)) :
    read ((cdata body).source ++ rest) = .ok (.cdata body, rest) := by
  simp only [source, List.append_assoc, List.cons_append, List.nil_append] at h ⊢
  simp only [read, readMarkup, readDeclaration, Text.strip?, if_true, h]

theorem read_comment (h : Text.cut? ['-', '-', '>'] (body ++ ['-', '-', '>'] ++ rest) = some (body, rest)) :
    read ((comment body).source ++ rest) = .ok (.comment body, rest) := by
  simp only [source, List.append_assoc, List.cons_append, List.nil_append] at h ⊢
  simp only [read, readMarkup, readDeclaration, h]

theorem read_instruction (hfirst : (body ++ ['?', '>'] ++ rest).head? ≠ some '>')
    (h : Text.cut? ['?', '>'] (body ++ ['?', '>'] ++ rest) = some (body, rest)) :
    read ((instruction body).source ++ rest) = .ok (.instruction body, rest) := by
  simp only [source, List.append_assoc, List.cons_append, List.nil_append] at hfirst h ⊢
  simp only [read, readMarkup, if_neg hfirst, h]

theorem read_doctype {c : Char} {token : Token} (hc : c = 'D' ∨ c = 'd')
    (htoken : ofDoctype? (c :: content) = some token)
    (h : cutBalanced 0 (c :: content ++ '>' :: rest) = some (c :: content, rest)) :
    read (token.source ++ rest) = .ok (token, rest) := by
  rw [source_of_ofDoctype? htoken]
  simp only [List.append_assoc, List.cons_append, List.nil_append] at h ⊢
  rcases hc with rfl | rfl <;> simp [read, readMarkup, readDeclaration, h, htoken]

theorem read_closeTag (h : cutTag none (content ++ '>' :: rest) = some (content, rest)) :
    read ((closeTag content).source ++ rest) = .ok (.closeTag content, rest) := by
  simp only [source, List.append_assoc, List.cons_append, List.nil_append]
  simp only [read, readMarkup, h]

/-- What follows `<` and begins like no other markup is a tag. -/
theorem read_tag (hfirst : ∀ c, (content ++ '>' :: rest).head? = some c → c ≠ '!' ∧ c ≠ '?' ∧ c ≠ '/')
    (h : cutTag none (content ++ '>' :: rest) = some (content, rest)) :
    read ((ofTag content).source ++ rest) = .ok (ofTag content, rest) := by
  rw [source_ofTag]
  simp only [List.append_assoc, List.cons_append, List.nil_append, read]
  unfold readMarkup
  split
  · next heq => exact absurd rfl (hfirst _ (by rw [heq]; rfl)).1
  · next heq => exact absurd rfl (hfirst _ (by rw [heq]; rfl)).2.1
  · next heq => exact absurd rfl (hfirst _ (by rw [heq]; rfl)).2.2
  · rw [h]

theorem not_mem_takeWhile_isRun (t : Text) : '<' ∉ t.takeWhile isRun :=
  fun hmem => absurd (List.mem_takeWhile_imp hmem) (by decide)

/-- A run ends before markup. -/
theorem eq_of_head?_dropWhile_isRun {t : Text} {c : Char} (h : (t.dropWhile isRun).head? = some c) : c = '<' := by
  have hstop := List.head?_dropWhile_not isRun t
  rw [h] at hstop
  simpa [isRun] using hstop

/-- A run of text goes on to the next markup or to the end. -/
theorem read_run {run : Text} (hne : run ≠ []) (hrun : '<' ∉ run) (hrest : ∀ c, rest.head? = some c → c = '<') :
    read ((Token.run run).source ++ rest) = .ok (.run run, rest) := by
  have hall : ∀ c ∈ run, isRun c = true := fun c hc => bne_iff_ne.2 (ne_of_mem_of_not_mem hc hrun)
  have hstop : ∀ c, rest.head? = some c → isRun c = false := by
    intro c hc
    rw [hrest c hc]
    rfl
  unfold source read
  split
  · next heq =>
    obtain ⟨c, run, rfl⟩ := List.exists_cons_of_ne_nil hne
    exact absurd List.mem_cons_self ((List.cons.inj heq).1 ▸ hrun)
  · rw [Text.takeWhile_run_append hall hstop, Text.dropWhile_run_append hall hstop]

end Markup.Token

end LintFixture
