import LintFixture.Markup.Sheet
import LintFixture.Proofs.Markup.Token
import LintFixture.Proofs.Text.Cut

/-!
# CDATA sections

No section that is written holds the mark that ends it, so it is read up to its
own end (`read_cdataSection`), and the sections of a text hold the text
(`flatten_sections`).
-/

namespace LintFixture

namespace Markup

/-- The mark that ends a CDATA section. -/
def sectionEnd : Text := [']', ']', '>']

/-- A text without the mark is cut at the mark that follows it. -/
theorem cut?_sectionEnd {t : Text} (rest : Text) (h : ¬ sectionEnd <:+: t) :
    Text.cut? sectionEnd (t ++ (sectionEnd ++ rest)) = some (t, rest) := by
  induction t with
  | nil => rfl
  | cons c t ih =>
    rw [List.infix_cons_iff, not_or] at h
    have hstrip : Text.strip? sectionEnd (c :: (t ++ (sectionEnd ++ rest))) = none := by
      rw [Text.strip?_eq_none_iff]
      rintro ⟨after, hafter⟩
      apply h.1
      -- an earlier mark would end inside the next two characters, and these are no `>`
      match t, hafter with
      | [], hafter => simp [sectionEnd] at hafter
      | [_], hafter => simp [sectionEnd] at hafter
      | _ :: _ :: _, hafter =>
        simp only [sectionEnd, List.cons_append, List.nil_append, List.cons.injEq] at hafter ⊢
        obtain ⟨rfl, rfl, rfl, -⟩ := hafter
        exact ⟨_, rfl⟩
    rw [List.cons_append, Text.cut?, hstrip]
    simp only
    rw [ih h.2]
    rfl

theorem Token.read_cdataSection {t : Text} (rest : Text) (h : ¬ sectionEnd <:+: t) :
    Token.read (Sheet.cdataSection t ++ rest) = .ok (.cdata t, rest) := by
  have hcut := cut?_sectionEnd rest h
  rw [← List.append_assoc] at hcut
  exact read_cdata hcut

/-! ## The sections of a text -/

namespace Sheet

/-- What stands before the first mark does not hold it, even with all of the mark but its end. -/
theorem not_infix_of_cut? {t before after : Text} (h : Text.cut? sectionEnd t = some (before, after)) :
    ¬ sectionEnd <:+: before ++ [']', ']'] := by
  induction t generalizing before with
  | nil => cases h
  | cons c t ih =>
    rw [Text.cut?] at h
    cases hs : Text.strip? sectionEnd (c :: t) with
    | some rest =>
      rw [hs] at h
      obtain ⟨rfl, rfl⟩ := Prod.mk.inj (Option.some.inj h)
      decide
    | none =>
      rw [hs] at h
      obtain ⟨⟨before, tail⟩, hcut, heq⟩ := Option.map_eq_some_iff.1 h
      obtain ⟨rfl, rfl⟩ := Prod.mk.inj heq
      rw [List.cons_append, List.infix_cons_iff, not_or]
      -- a mark at the front would be one at the front of the whole text
      refine ⟨fun hp => Text.strip?_eq_none_iff.1 hs (hp.trans ?_), ih hcut⟩
      exact ⟨'>' :: tail, by simp [Text.eq_of_cut? hcut, sectionEnd]⟩

/-- Together the sections hold the text. -/
theorem flatten_sections (t : Text) : (sections t).flatten = t := by
  fun_induction sections t with
  | case1 t h => simp
  | case2 t before after h ih => simp [ih, Text.eq_of_cut? h]

theorem not_infix_of_mem_sections {t part : Text} (h : part ∈ sections t) : ¬ sectionEnd <:+: part := by
  fun_induction sections t with
  | case1 t hc =>
    rw [List.mem_singleton.1 h]
    exact Text.not_infix_of_cut?_eq_none hc
  | case2 t before after hc ih =>
    rcases List.mem_cons.1 h with rfl | h
    · exact not_infix_of_cut? hc
    · exact ih h

end Sheet

end Markup

end LintFixture
