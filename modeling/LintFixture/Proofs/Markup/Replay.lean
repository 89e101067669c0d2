import LintFixture.Proofs.Markup.Section
import LintFixture.Proofs.Markup.Tag

/-!
# Reading tokens again

What ends a token lies inside it, or is the markup behind a run of text. So tokens
that were read one after the other are read again from their sources alone, also
when those before and behind them are gone (`Token.readAll_sources`), and a text that ends
with markup is read as it stands before any other (`Token.reads_append_right`).
-/

namespace LintFixture

namespace Markup.Token

theorem cutTag_of_cutTag {quote : Option Char} {t content after : Text} (after' : Text)
    (h : cutTag quote t = some (content, after)) :
    cutTag quote (content ++ '>' :: after') = some (content, after') := by
  fun_induction cutTag quote t generalizing content with
  | case1 => cases h
  | case2 =>
    cases h
    simp [cutTag]
  | case3 c rest hc ih =>
    obtain ⟨⟨b, r⟩, hcut, heq⟩ := Option.map_eq_some_iff.1 h
    cases heq
    simp only [List.cons_append, cutTag, if_neg hc, ih hcut, Option.map_some]
  | case4 c rest q ih =>
    obtain ⟨⟨b, r⟩, hcut, heq⟩ := Option.map_eq_some_iff.1 h
    cases heq
    simp only [List.cons_append, cutTag, ih hcut, Option.map_some]

theorem cutBalanced_of_cutBalanced {depth : Nat} {t content after : Text} (after' : Text)
    (h : cutBalanced depth t = some (content, after)) :
    cutBalanced depth (content ++ '>' :: after') = some (content, after') := by
  fun_induction cutBalanced depth t generalizing content with
  | case1 => cases h
  | case3 =>
    cases h
    rfl
  | case2 _ _ ih =>
    obtain ⟨⟨b, r⟩, hcut, heq⟩ := Option.map_eq_some_iff.1 h
    cases heq
    rw [List.cons_append, cutBalanced, ih hcut, Option.map_some]
  | case4 _ _ ih =>
    obtain ⟨⟨b, r⟩, hcut, heq⟩ := Option.map_eq_some_iff.1 h
    cases heq
    rw [List.cons_append, cutBalanced, ih hcut, Option.map_some]
  | case5 _ _ _ h₁ h₂ ih =>
    obtain ⟨⟨b, r⟩, hcut, heq⟩ := Option.map_eq_some_iff.1 h
    cases heq
    rw [List.cons_append, cutBalanced, ih hcut, Option.map_some] <;> assumption

/-- A declaration ends inside its source. -/
theorem readDeclaration_append {t rest : Text} {token : Token} (rest' : Text)
    (h : readDeclaration t = .ok (token, rest)) : read (token.source ++ rest') = .ok (token, rest') := by
  unfold readDeclaration at h
  split at h
  · split at h
    · cases h
    · split at h
      · next hcut =>
        cases h
        exact read_cdata (Text.cut?_of_cut? rest' hcut)
      · cases h
  · split at h
    · split at h
      · next hcut =>
        cases h
        exact read_comment (Text.cut?_of_cut? rest' hcut)
      · cases h
    · cases h
  · next c t _ _ =>
    split at h
    · next hc =>
      split at h
      · next content _ hcut =>
        split at h
        · next htoken =>
          cases h
          cases content with
          | nil =>
            obtain rfl := (List.cons.inj (eq_of_cutBalanced hcut)).1
            simp at hc
          | cons d content =>
            obtain rfl := (List.cons.inj (eq_of_cutBalanced hcut)).1
            exact read_doctype hc htoken (cutBalanced_of_cutBalanced rest' hcut)
        · cases h
      · cases h
    · cases h
  · cases h

theorem head?_append_cons (s : Text) (m : Char) (rest rest' : Text) :
    (s ++ m :: rest).head? = (s ++ m :: rest').head? := by
  cases s <;> rfl

/-- Markup ends inside its source. -/
theorem readMarkup_append {t rest : Text} {token : Token} (rest' : Text)
    (h : readMarkup t = .ok (token, rest)) : read (token.source ++ rest') = .ok (token, rest') := by
  unfold readMarkup at h
  split at h
  · exact readDeclaration_append rest' h
  · split at h
    · cases h
    · next hfirst =>
      split at h
      · next hcut =>
        cases h
        refine read_instruction ?_ (Text.cut?_of_cut? rest' hcut)
        rw [Text.eq_of_cut? hcut, List.append_assoc, List.cons_append, head?_append_cons] at hfirst
        rw [List.append_assoc]
        exact hfirst
      · cases h
  · split at h
    · next hcut =>
      cases h
      exact read_closeTag (cutTag_of_cutTag rest' hcut)
    · cases h
  · next hbang hquestion hslash =>
    split at h
    · next hcut =>
      cases h
      refine read_tag ?_ (cutTag_of_cutTag rest' hcut)
      intro c hc
      rw [head?_append_cons, ← eq_of_cutTag hcut] at hc
      obtain ⟨more, ht⟩ := List.head?_eq_some_iff.1 hc
      refine ⟨?_, ?_, ?_⟩ <;> rintro rfl
      · exact hbang more ht
      · exact hquestion more ht
      · exact hslash more ht
    · cases h

/-- A token is read again from its source, before any part of what stood behind it: markup ends
inside its source, and a run of text goes on no further than it did. -/
theorem read_append {t rest rest' : Text} {token : Token} (ht : t ≠ []) (h : read t = .ok (token, rest))
    (hp : rest' <+: rest) : read (token.source ++ rest') = .ok (token, rest') := by
  have hne := source_ne_nil_of_read ht h
  unfold read at h
  split at h
  · exact readMarkup_append rest' h
  · cases h
    refine read_run hne (not_mem_takeWhile_isRun t) fun c hc => ?_
    -- the first character of the shorter rest stopped the run
    obtain ⟨more, rfl⟩ := List.head?_eq_some_iff.1 hc
    obtain ⟨tail, htail⟩ := hp
    refine eq_of_head?_dropWhile_isRun (t := t) ?_
    rw [← htail, List.cons_append, List.head?_cons]

/-! ## Rows of tokens -/

theorem readAll_of_read {t rest : Text} {token : Token} (ht : t ≠ []) (h : read t = .ok (token, rest)) :
    readAll t = (token :: (readAll rest).1, (readAll rest).2) := by
  rw [readAll, dif_neg ht]
  split
  · next heq => cases h.symm.trans heq
  · next heq =>
    cases h.symm.trans heq
    rfl

/-- Reading takes the tokens off the front of a text and leaves the rest. -/
inductive Reads : List Token → Text → Text → Prop
  | nil (t : Text) : Reads [] t t
  | cons {token : Token} {tokens : List Token} {t next rest : Text} (ht : t ≠ [])
    (h : read t = .ok (token, next)) (hr : Reads tokens next rest) : Reads (token :: tokens) t rest

theorem reads_append_iff {front back : List Token} {t rest : Text} :
    Reads (front ++ back) t rest ↔ ∃ middle, Reads front t middle ∧ Reads back middle rest := by
  constructor
  · intro h
    induction front generalizing t with
    | nil => exact ⟨t, .nil t, h⟩
    | cons token front ih =>
      cases h with
      | cons ht hread hr =>
        obtain ⟨middle, hfront, hback⟩ := ih hr
        exact ⟨middle, .cons ht hread hfront, hback⟩
  · rintro ⟨middle, hfront, hback⟩
    induction hfront with
    | nil => exact hback
    | cons ht hread _ ih => exact .cons ht hread (ih hback)

theorem reads_of_readAll {tokens : List Token} {t : Text} (h : readAll t = (tokens, none)) : Reads tokens t [] := by
  fun_induction readAll t generalizing tokens with
  | case1 =>
    cases h
    exact .nil []
  | case2 => cases h
  | case3 t ht token rest hread tokens fault hall ih =>
    cases h
    exact .cons ht hread (ih hall)

theorem Reads.readAll_eq {tokens : List Token} {t rest : Text} (h : Reads tokens t rest) (hrest : rest = []) :
    readAll t = (tokens, none) := by
  induction h with
  | nil => rw [hrest, readAll, dif_pos rfl]
  | cons ht hread _ ih => rw [readAll_of_read ht hread, ih hrest]

/-- The sources of tokens, one after the other. -/
def sources (tokens : List Token) : Text := tokens.flatMap source

@[simp] theorem sources_singleton (token : Token) : sources [token] = token.source := by simp [sources]

@[simp] theorem sources_append (front back : List Token) : sources (front ++ back) = sources front ++ sources back :=
  List.flatMap_append

theorem Reads.eq_append {tokens : List Token} {t rest : Text} (h : Reads tokens t rest) :
    t = sources tokens ++ rest := by
  induction h with
  | nil => rfl
  | cons _ hread _ ih => rw [eq_of_read hread, ih, sources, sources, List.flatMap_cons, List.append_assoc]

/-- A row of tokens is read again from its sources, before any part of what stood behind it. -/
theorem Reads.again {tokens : List Token} {t rest rest' : Text} (h : Reads tokens t rest) (hp : rest' <+: rest) :
    Reads tokens (sources tokens ++ rest') rest' := by
  induction h with
  | nil => exact .nil rest'
  | @cons token tokens t next rest ht hread hr ih =>
    have hnext : sources tokens ++ rest' <+: next := by
      rw [hr.eq_append]
      exact (List.prefix_append_right_inj _).2 hp
    rw [sources, List.flatMap_cons, List.append_assoc]
    refine .cons ?_ (read_append ht hread hnext) (ih hp)
    exact List.append_ne_nil_of_left_ne_nil (source_ne_nil_of_read ht hread) _

/-- Tokens from the middle of a text are read from their sources alone. -/
theorem readAll_sources {before tokens after : List Token} {t : Text}
    (h : readAll t = (before ++ tokens ++ after, none)) : readAll (sources tokens) = (tokens, none) := by
  obtain ⟨_, hfront, -⟩ := reads_append_iff.1 (reads_of_readAll h)
  obtain ⟨_, -, hmiddle⟩ := reads_append_iff.1 hfront
  have hagain := hmiddle.again List.nil_prefix
  rw [List.append_nil] at hagain
  exact hagain.readAll_eq rfl

/-! ## More text behind -/

/-- A token that ends in the text ends there also when more follows. -/
theorem read_append_right {t rest : Text} {token : Token} (more : Text) (h : read t = .ok (token, rest))
    (hstop : rest ≠ [] ∨ ∀ chars, token ≠ .run chars) : read (t ++ more) = .ok (token, rest ++ more) := by
  have ht := eq_of_read h
  unfold read at h
  split at h
  · rw [ht, List.append_assoc]
    exact readMarkup_append _ h
  · next hmarkup =>
    cases h
    have hrest : t.dropWhile isRun ≠ [] := hstop.resolve_right fun hrun => hrun _ rfl
    obtain ⟨c, after, hafter⟩ := List.exists_cons_of_ne_nil hrest
    obtain rfl : c = '<' := eq_of_head?_dropWhile_isRun (t := t) (by rw [hafter, List.head?_cons])
    have hne : t.takeWhile isRun ≠ [] := by
      intro hnil
      rw [hnil, hafter] at ht
      exact hmarkup _ ht
    rw [hafter] at ht ⊢
    conv_lhs => rw [ht, List.append_assoc]
    exact read_run hne (not_mem_takeWhile_isRun t) (by simp [eq_comm])

/-- A text that ends with a piece of markup is read as it stands before any other text. -/
theorem reads_append_right {t : Text} {tokens : List Token} (h : readAll t = (tokens, none))
    (hlast : ∀ chars, tokens.getLast? ≠ some (.run chars)) (more : Text) : Reads tokens (t ++ more) more := by
  fun_induction readAll t generalizing tokens with
  | case1 =>
    cases h
    exact .nil more
  | case2 => cases h
  | case3 t ht token rest hread tokens fault hall ih =>
    cases h
    refine .cons (by simp [ht]) (read_append_right more hread ?_) (ih hall fun chars hchars => hlast chars ?_)
    · by_cases hrest : rest = []
      · right
        rintro chars rfl
        rw [hrest, readAll, dif_pos rfl] at hall
        cases hall
        exact hlast chars rfl
      · exact .inl hrest
    · rw [List.getLast?_cons, hchars]
      rfl

end Markup.Token

end LintFixture
