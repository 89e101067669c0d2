import LintFixture.Grid.Position
import LintFixture.Proofs.Text.Cut
import LintFixture.Proofs.Text.Numeral
import LintFixture.Proofs.Text.Trim
import LintFixture.Proofs.Traversal

/-!
# Texts of positions

A position is written as two numerals with a comma between them, blanks around each,
and parentheses around both or none (`IsWritten`). Reading takes the first comma and
trims, so it accepts these texts and no others (`parse_eq_ok_iff`), among them the
displayed form of every position whose numbers are sizes.
-/

namespace LintFixture.Grid.Position

open Text (allBlank isBlank trim)

variable {t inner numeral : Text} {n : Nat} {p : Position}

/-! ## The grammar -/

/-- A numeral of the size `n`, with blanks around it. -/
def IsPart (t : Text) (n : Nat) : Prop :=
  ∃ numeral, t.Pads numeral ∧ Numeral.Denotes numeral n ∧ n ≤ Numeral.maxSize

/-- The line and the column, with a comma between them. -/
def IsPair (t : Text) (p : Position) : Prop :=
  ∃ line column, t = line ++ ',' :: column ∧ IsPart line p.line ∧ IsPart column p.column

/-- The text stands for the position. -/
inductive IsWritten (t : Text) (p : Position) : Prop
  | bare {inner : Text} (ht : t.Pads inner) (h : IsPair inner p)
  | wrapped {inner : Text} (ht : t.Pads ('(' :: (inner ++ [')']))) (h : IsPair inner p)

/-! ## Numerals -/

theorem isDigit_or_eq_of_denotes {c : Char} (h : Numeral.Denotes numeral n) (hc : c ∈ numeral) :
    c.isDigit = true ∨ c = '+' := by
  obtain ⟨digits, rfl | rfl, -, hdigits, -⟩ := h
  · exact .inl (hdigits c hc)
  · rcases List.mem_cons.1 hc with rfl | hc
    · exact .inr rfl
    · exact .inl (hdigits c hc)

theorem isBlank_eq_false_of_denotes {c : Char} (h : Numeral.Denotes numeral n) (hc : c ∈ numeral) :
    isBlank c = false := by
  rcases isDigit_or_eq_of_denotes h hc with hdigit | rfl
  · exact Text.isBlank_eq_false_of_isDigit hdigit
  · rfl

theorem isPart_iff : IsPart t n ↔ Numeral.readSize (trim t) = .ok n := by
  rw [Numeral.readSize_eq_ok_iff]
  constructor
  · rintro ⟨numeral, ht, hn, hle⟩
    rw [ht.trim_eq, Text.trim_eq_self_of_not_isBlank fun _ => isBlank_eq_false_of_denotes hn]
    exact ⟨hn, hle⟩
  · rintro ⟨hn, hle⟩
    exact ⟨trim t, Text.pads_trim t, hn, hle⟩

theorem IsPart.trimStart (h : IsPart t n) : IsPart (Text.trimStart t) n := by
  rw [isPart_iff] at h ⊢
  rwa [trim, Text.trimStart_trimStart]

theorem IsPart.trimEnd (h : IsPart t n) : IsPart (Text.trimEnd t) n := by
  obtain ⟨after, hafter, ht⟩ := Text.exists_eq_trimEnd_append t
  have hpads : t.Pads (Text.trimEnd t) := ⟨[], after, rfl, hafter, ht⟩
  rw [isPart_iff] at h ⊢
  rwa [← hpads.trim_eq]

theorem IsPart.comma_not_mem (h : IsPart t n) : ',' ∉ t := by
  obtain ⟨numeral, ⟨before, after, hbefore, hafter, rfl⟩, hn, -⟩ := h
  simp only [List.mem_append, not_or]
  refine ⟨⟨fun hc => ?_, fun hc => ?_⟩, fun hc => ?_⟩
  · exact absurd (Text.allBlank_iff.1 hbefore _ hc) (by decide)
  · rcases isDigit_or_eq_of_denotes hn hc with h | h <;> cases h
  · exact absurd (Text.allBlank_iff.1 hafter _ hc) (by decide)

/-- A part without blanks in front begins with its numeral. -/
theorem IsPart.head?_trimStart (h : IsPart t n) :
    ∃ c, (Text.trimStart t).head? = some c ∧ (c.isDigit = true ∨ c = '+') := by
  obtain ⟨numeral, ⟨before, after, hbefore, -, rfl⟩, hn, -⟩ := h
  have hne : numeral ≠ [] := by
    obtain ⟨digits, rfl | rfl, hne, -⟩ := hn
    · exact hne
    · exact List.cons_ne_nil _ _
  obtain ⟨c, rest, rfl⟩ := List.exists_cons_of_ne_nil hne
  have hc := isBlank_eq_false_of_denotes hn List.mem_cons_self
  refine ⟨c, ?_, isDigit_or_eq_of_denotes hn List.mem_cons_self⟩
  rw [List.append_assoc, Text.trimStart_append_of_allBlank hbefore, List.cons_append, Text.trimStart,
    List.dropWhile_cons_of_neg (by simp [hc]), List.head?_cons]

/-! ## Pairs -/

theorem readPair_eq_some_iff : readPair t = some p ↔ IsPair t p := by
  have hread : readPair t = some p ↔ ∃ line column, splitComma? t = some (line, column) ∧
      Numeral.readSize line.trim = .ok p.line ∧ Numeral.readSize column.trim = .ok p.column := by
    obtain ⟨l, c⟩ := p
    simp only [readPair, Option.bind_eq_bind, Option.bind_eq_some_iff, Prod.exists, toOption_eq_some_iff, pure,
      Option.some.injEq, mk.injEq]
    constructor
    · rintro ⟨line, column, hsplit, _, hl, _, hc, rfl, rfl⟩
      exact ⟨line, column, hsplit, hl, hc⟩
    · rintro ⟨line, column, hsplit, hl, hc⟩
      exact ⟨line, column, hsplit, l, hl, c, hc, rfl, rfl⟩
  simp only [hread, IsPair, splitComma?, Text.cut?_singleton_eq_some_iff, ← isPart_iff]
  constructor
  · rintro ⟨line, column, ⟨ht, -⟩, hparts⟩
    exact ⟨line, column, ht, hparts⟩
  · rintro ⟨line, column, ht, hl, hc⟩
    exact ⟨line, column, ⟨ht, hl.comma_not_mem⟩, hl, hc⟩

/-- Blanks around a pair are blanks around its parts. -/
theorem IsPair.trim (h : IsPair t p) : IsPair (Text.trim t) p := by
  obtain ⟨line, column, rfl, hl, hc⟩ := h
  refine ⟨Text.trimStart line, Text.trimEnd column, ?_, hl.trimStart, hc.trimEnd⟩
  rw [Text.trim, Text.trimStart_append_cons (by decide), Text.trimEnd_append_cons (by decide)]

/-- A pair does not begin with a parenthesis. -/
theorem IsPair.unwrap?_trim (h : IsPair t p) : unwrap? (Text.trim t) = none := by
  obtain ⟨line, column, rfl, hl, -⟩ := h
  obtain ⟨c, hhead, hfirst⟩ := hl.head?_trimStart
  obtain ⟨rest, hrest⟩ := List.head?_eq_some_iff.1 hhead
  rw [Text.trim, Text.trimStart_append_cons (by decide), Text.trimEnd_append_cons (by decide), hrest, List.cons_append]
  unfold unwrap?
  split
  · next heq =>
    obtain rfl := (List.cons.inj heq).1
    rcases hfirst with hfirst | hfirst <;> cases hfirst
  · rfl

/-! ## Reading -/

theorem unwrap?_eq_some_iff : unwrap? t = some inner ↔ t = '(' :: (inner ++ [')']) := by
  constructor
  · intro h
    unfold unwrap? at h
    split at h
    · next rest =>
      split at h
      · next hlast =>
        obtain ⟨front, rfl⟩ := List.getLast?_eq_some_iff.1 hlast
        obtain rfl := Option.some.inj h
        rw [List.dropLast_concat]
      · cases h
    · cases h
  · rintro rfl
    simp [unwrap?]

theorem trim_wrapped (inner : Text) : trim ('(' :: (inner ++ [')'])) = '(' :: (inner ++ [')']) := by
  rw [trim, Text.trimStart_eq_self_iff.2 (by rintro _ ⟨⟩; rfl), Text.trimEnd_eq_self_iff]
  intro c hc
  rw [← List.cons_append, List.getLast?_concat] at hc
  cases hc
  rfl

theorem parse?_eq_some_iff : parse? t = some p ↔ IsWritten t p := by
  rw [parse?]
  constructor
  · intro h
    have ht := Text.pads_trim t
    cases hinner : unwrap? (trim t) with
    | some inner =>
      rw [hinner] at h
      rw [unwrap?_eq_some_iff.1 hinner] at ht
      exact .wrapped ht (readPair_eq_some_iff.1 h)
    | none =>
      rw [hinner] at h
      exact .bare ht (readPair_eq_some_iff.1 h)
  · intro h
    cases h with
    | bare ht h =>
      rw [ht.trim_eq, h.unwrap?_trim]
      exact readPair_eq_some_iff.2 h.trim
    | wrapped ht h =>
      rw [ht.trim_eq, trim_wrapped, unwrap?_eq_some_iff.2 rfl]
      exact readPair_eq_some_iff.2 h

theorem parse_eq_ok_iff : parse t = .ok p ↔ IsWritten t p := by
  rw [← parse?_eq_some_iff, parse]
  cases parse? t <;> simp

theorem parse_eq_error_iff {e : ParseError} : parse t = .error e ↔ (∀ p, ¬ IsWritten t p) ∧ e = ⟨t⟩ := by
  simp only [← parse?_eq_some_iff, parse]
  cases parse? t <;> simp [eq_comm]

/-! ## The displayed form -/

theorem isPart_ofNat_iff {blanks : Text} (hblanks : allBlank blanks = true) {m : Nat} :
    IsPart (blanks ++ Text.ofNat n) m ↔ m = n ∧ n ≤ Numeral.maxSize := by
  have hpads : (blanks ++ Text.ofNat n).Pads (Text.ofNat n) := ⟨blanks, [], hblanks, rfl, (List.append_nil _).symm⟩
  rw [isPart_iff, hpads.trim_eq, Text.trim_ofNat, Numeral.readSize_eq_ok_iff, Numeral.denotes_ofNat_iff]
  refine and_congr_right ?_
  rintro rfl
  rfl

/-- The first comma divides a pair. -/
theorem isPair_append_iff {line : Text} (hline : ',' ∉ line) (column : Text) :
    IsPair (line ++ ',' :: column) p ↔ IsPart line p.line ∧ IsPart column p.column := by
  constructor
  · rintro ⟨line', column', heq, hl, hc⟩
    have hcut : Text.cut? [','] (line ++ ',' :: column) = some (line, column) :=
      Text.cut?_singleton_eq_some_iff.2 ⟨rfl, hline⟩
    rw [Text.cut?_singleton_eq_some_iff.2 ⟨heq, hl.comma_not_mem⟩] at hcut
    cases hcut
    exact ⟨hl, hc⟩
  · rintro ⟨hl, hc⟩
    exact ⟨line, column, rfl, hl, hc⟩

theorem parse?_display_eq_some_iff {q : Position} :
    parse? p.display = some q ↔ q = p ∧ p.line ≤ Numeral.maxSize ∧ p.column ≤ Numeral.maxSize := by
  have hdisplay : p.display = '(' :: ((Text.ofNat p.line ++ ',' :: ([' '] ++ Text.ofNat p.column)) ++ [')']) := by
    simp [display]
  have hline : ',' ∉ Text.ofNat p.line := fun hc => by cases Text.isDigit_of_mem_ofNat hc
  have hfirst : ∀ m, IsPart (Text.ofNat p.line) m ↔ m = p.line ∧ p.line ≤ Numeral.maxSize :=
    fun _ => isPart_ofNat_iff Text.allBlank_nil
  rw [parse?, hdisplay, trim_wrapped, unwrap?_eq_some_iff.2 rfl, Option.getD_some, readPair_eq_some_iff,
    isPair_append_iff hline, hfirst, isPart_ofNat_iff rfl]
  obtain ⟨l, c⟩ := p
  obtain ⟨l', c'⟩ := q
  simp only [mk.injEq]
  tauto

theorem parse_display (p : Position) :
    parse p.display =
      if p.line ≤ Numeral.maxSize ∧ p.column ≤ Numeral.maxSize then .ok p else .error ⟨p.display⟩ := by
  unfold parse
  split
  · next q hq =>
    obtain ⟨rfl, hsizes⟩ := parse?_display_eq_some_iff.1 hq
    rw [if_pos hsizes]
  · next hnone =>
    rw [if_neg]
    intro hsizes
    rw [parse?_display_eq_some_iff.2 ⟨rfl, hsizes⟩] at hnone
    cases hnone

/-! ## Main statement -/

/-- The displayed form of a position is read as that position, unless one of its numbers is no size. A text is read
as a position exactly when it is written as the grammar says, and is given back as it is otherwise. -/
theorem parse_iff_isWritten :
    (∀ p : Position, parse p.display =
      if p.line ≤ Numeral.maxSize ∧ p.column ≤ Numeral.maxSize then .ok p else .error ⟨p.display⟩) ∧
    ∀ t : Text, (∀ p, parse t = .ok p ↔ IsWritten t p) ∧
      ∀ e, parse t = .error e ↔ (∀ p, ¬ IsWritten t p) ∧ e = ⟨t⟩ :=
  ⟨parse_display, fun _ => ⟨fun _ => parse_eq_ok_iff, fun _ => parse_eq_error_iff⟩⟩

/-- Parentheses come in one pair or not at all. -/
example : parse " ( +1\t,\u20032 ) ".toList = .ok ⟨1, 2⟩ ∧ parse "((1,2))".toList = .error ⟨"((1,2))".toList⟩ ∧
    parse "(1,2".toList = .error ⟨"(1,2".toList⟩ := by
  decide +kernel

end LintFixture.Grid.Position
