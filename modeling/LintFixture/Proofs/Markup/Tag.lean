import LintFixture.Markup.Event
import LintFixture.Markup.Sheet
import LintFixture.Proofs.Markup.Reference
import LintFixture.Proofs.Markup.Token
import Mathlib.Data.List.DropRight

/-!
# Reading a written tag

Plain names and escaped values cannot end the tag they stand in. A start tag that
was written from a name and attributes with different keys is read as one token
(`read_openingTag`), and its content as that name and those attributes
(`exists_tagRead`).
-/

namespace LintFixture.Markup

/-! ## Plain names -/

/-- The characters of the names that are written. -/
def isPlain (c : Char) : Bool := c.isAlphanum || c == '-' || c == ':'

/-- A name that can be written as it is. -/
def IsPlainName (name : Text) : Prop := name ≠ [] ∧ name.all isPlain = true

instance (name : Text) : Decidable (IsPlainName name) := inferInstanceAs (Decidable (_ ∧ _))

/-- Attributes with plain and different keys. -/
def ArePlainAttributes (attributes : List (Text × Text)) : Prop :=
  (∀ a ∈ attributes, IsPlainName a.1) ∧ (attributes.map Prod.fst).Nodup

instance (attributes : List (Text × Text)) : Decidable (ArePlainAttributes attributes) :=
  inferInstanceAs (Decidable (_ ∧ _))

theorem arePlainAttributes_nil : ArePlainAttributes [] :=
  ⟨List.forall_mem_nil _, List.nodup_nil⟩

theorem IsPlainName.isPlain_of_mem {name : Text} (h : IsPlainName name) : ∀ c ∈ name, isPlain c = true :=
  List.all_eq_true.1 h.2

theorem ne_of_isPlain {c d : Char} (h : isPlain c = true) (hd : isPlain d = false) : c ≠ d := by
  rintro rfl
  rw [h] at hd
  cases hd

theorem isGap_of_isPlain {c : Char} (h : isPlain c = true) : isGap c = false := by
  simp [isGap, ne_of_isPlain h (d := ' ') rfl, ne_of_isPlain h (d := '\t') rfl,
    ne_of_isPlain h (d := '\n') rfl, ne_of_isPlain h (d := '\r') rfl]

theorem isQuote_of_isPlain {c : Char} (h : isPlain c = true) : isQuote c = false := by
  simp [isQuote, ne_of_isPlain h (d := '\x22') rfl, ne_of_isPlain h (d := '\x27') rfl]

theorem continuesKey_of_isPlain {c : Char} (h : isPlain c = true) : continuesKey c = true := by
  simp [continuesKey, isGap_of_isPlain h, ne_of_isPlain h (d := '=') rfl]

theorem continuesName_of_isPlain {c : Char} (h : isPlain c = true) : continuesName c = true := by
  simp [continuesName, isGap_of_isPlain h]

/-- A name is its parts again, with the colon it was split at. -/
@[simp] theorem Name.text_ofText (t : Text) : (Name.ofText t).text = t := by
  unfold Name.ofText
  split
  · next h => simp [Name.text, Text.eq_of_cut? h]
  · rfl

namespace Sheet

/-- The attributes of a tag. -/
def attributesText (attributes : List (Text × Text)) : Text :=
  attributes.flatMap fun (key, value) => attributeText key value

theorem attributesText_cons (a : Text × Text) (attributes : List (Text × Text)) :
    attributesText (a :: attributes) = attributeText a.1 a.2 ++ attributesText attributes :=
  List.flatMap_cons

theorem openingTag_eq (name : Text) (attributes : List (Text × Text)) :
    openingTag name attributes = '<' :: (name ++ attributesText attributes ++ ['>']) := rfl

/-- Attributes begin with the blank before the first one. -/
theorem head?_attributesText {attributes : List (Text × Text)} {c : Char}
    (h : (attributesText attributes).head? = some c) : c = ' ' := by
  cases attributes with
  | nil => cases h
  | cons a attributes => exact (Option.some.inj h).symm

/-- Attributes end with the quote after the last one. -/
theorem getLast?_attributesText {attributes : List (Text × Text)} {c : Char}
    (h : (attributesText attributes).getLast? = some c) : c = '\x22' := by
  induction attributes with
  | nil => cases h
  | cons a attributes ih =>
    rw [attributesText_cons, List.getLast?_append] at h
    cases hl : (attributesText attributes).getLast? with
    | some d =>
      rw [hl, Option.some_or] at h
      exact ih (hl.trans h)
    | none =>
      rw [hl, Option.none_or, attributeText, List.getLast?_concat] at h
      exact (Option.some.inj h).symm

end Sheet

/-! ## The token of a tag -/

namespace Token

theorem cutTag_none_append {s t : Text} (h : ∀ c ∈ s, c ≠ '>' ∧ isQuote c = false) :
    cutTag none (s ++ t) = (cutTag none t).map fun (content, after) => (s ++ content, after) := by
  induction s with
  | nil =>
    rw [List.nil_append]
    cases cutTag none t <;> rfl
  | cons c s ih =>
    rw [List.forall_mem_cons] at h
    simp only [List.cons_append, cutTag, if_neg h.1.1, h.1.2, Bool.false_eq_true, if_false, ih h.2]
    cases cutTag none t <;> rfl

theorem cutTag_some_append {q : Char} {s t : Text} (h : q ∉ s) :
    cutTag (some q) (s ++ q :: t) =
      (cutTag none t).map fun (content, after) => (s ++ q :: content, after) := by
  induction s with
  | nil => simp [cutTag]
  | cons c s ih =>
    rw [List.mem_cons, not_or] at h
    simp only [List.cons_append, cutTag, if_neg (Ne.symm h.1), ih h.2]
    cases cutTag none t <;> rfl

theorem cutTag_plain {name t : Text} (h : ∀ c ∈ name, isPlain c = true) :
    cutTag none (name ++ t) = (cutTag none t).map fun (content, after) => (name ++ content, after) :=
  cutTag_none_append fun c hc => ⟨ne_of_isPlain (h c hc) rfl, isQuote_of_isPlain (h c hc)⟩

/-- The `>` inside a written value is escaped or enclosed, so it does not end the tag. -/
theorem cutTag_attributeText {key : Text} (value t : Text) (h : IsPlainName key) :
    cutTag none (Sheet.attributeText key value ++ t) =
      (cutTag none t).map fun (content, after) => (Sheet.attributeText key value ++ content, after) := by
  have hq : '\x22' ∉ escape value := not_mem_escape (by decide) (by decide) value
  have hs : Sheet.attributeText key value ++ t =
      [' '] ++ (key ++ (['='] ++ '\x22' :: (escape value ++ '\x22' :: t))) := by
    simp [Sheet.attributeText]
  rw [hs, cutTag_none_append (List.forall_mem_singleton.2 ⟨by decide, rfl⟩), cutTag_plain h.isPlain_of_mem,
    cutTag_none_append (List.forall_mem_singleton.2 ⟨by decide, rfl⟩)]
  simp only [cutTag, show ¬ ('\x22' : Char) = '>' by decide, if_false, show isQuote '\x22' = true from rfl,
    if_true, cutTag_some_append hq]
  cases cutTag none t <;> simp [Sheet.attributeText]

theorem cutTag_attributesText {attributes : List (Text × Text)} (t : Text)
    (h : ∀ a ∈ attributes, IsPlainName a.1) :
    cutTag none (Sheet.attributesText attributes ++ '>' :: t) =
      some (Sheet.attributesText attributes, t) := by
  induction attributes with
  | nil => simp [Sheet.attributesText, cutTag]
  | cons a attributes ih =>
    rw [List.forall_mem_cons] at h
    rw [Sheet.attributesText_cons, List.append_assoc, cutTag_attributeText a.2 _ h.1, ih h.2]
    rfl

/-- A written start tag is one token. -/
theorem read_openingTag {name : Text} {attributes : List (Text × Text)} (rest : Text)
    (hn : IsPlainName name) (ha : ∀ a ∈ attributes, IsPlainName a.1) :
    read (Sheet.openingTag name attributes ++ rest) =
      .ok (.openTag (name ++ Sheet.attributesText attributes), rest) := by
  have hplain := hn.isPlain_of_mem
  have hcut : cutTag none (name ++ (Sheet.attributesText attributes ++ '>' :: rest)) =
      some (name ++ Sheet.attributesText attributes, rest) := by
    rw [cutTag_plain hplain, cutTag_attributesText rest ha, Option.map_some]
  have hof : ofTag (name ++ Sheet.attributesText attributes) =
      .openTag (name ++ Sheet.attributesText attributes) := by
    -- the content ends with a quote or a plain character, so the tag is not an empty one
    apply if_neg
    intro hlast
    rw [List.getLast?_append] at hlast
    cases hl : (Sheet.attributesText attributes).getLast? with
    | some d =>
      rw [hl, Option.some_or, Sheet.getLast?_attributesText hl] at hlast
      exact absurd (Option.some.inj hlast) (by decide)
    | none =>
      rw [hl, Option.none_or] at hlast
      exact absurd (hplain _ (List.mem_of_getLast? hlast)) (by decide)
  have hfirst : ∀ c, (name ++ Sheet.attributesText attributes ++ '>' :: rest).head? = some c →
      c ≠ '!' ∧ c ≠ '?' ∧ c ≠ '/' := by
    obtain ⟨d, t, rfl⟩ := List.exists_cons_of_ne_nil hn.1
    rintro _ ⟨⟩
    have hd := hplain d List.mem_cons_self
    exact ⟨ne_of_isPlain hd rfl, ne_of_isPlain hd rfl, ne_of_isPlain hd rfl⟩
  have hread := read_tag hfirst (by rw [List.append_assoc]; exact hcut)
  rwa [hof] at hread

/-- A written end tag is one token. -/
theorem read_closingTag {name : Text} (rest : Text) (hn : IsPlainName name) :
    read (Sheet.closingTag name ++ rest) = .ok (.closeTag name, rest) := by
  have hcut : cutTag none (name ++ '>' :: rest) = some (name, rest) := by
    rw [cutTag_plain hn.isPlain_of_mem]
    simp [cutTag]
  exact read_closeTag hcut

theorem closingName_plain {name : Text} (hn : IsPlainName name) : closingName name = name := by
  obtain ⟨c, hc⟩ := List.exists_mem_of_ne_nil name hn.1
  have hall : name.all isGap ≠ true := by
    rw [Ne, List.all_eq_true]
    exact fun h => absurd (h c hc) (by simp [isGap_of_isPlain (hn.isPlain_of_mem c hc)])
  rw [closingName, if_neg hall]
  apply (List.rdropWhile_eq_self_iff (p := isGap)).2
  intro h
  simp [isGap_of_isPlain (hn.isPlain_of_mem _ (List.getLast_mem h))]

end Token

/-! ## The parts of a tag -/

/-- Skipping stops before the first character that does not belong to the run. -/
theorem Place.skip_append {p : Char → Bool} {s : Text} (offset : Nat) (rest : Text) (hs : ∀ c ∈ s, p c = true)
    (hr : ∀ c, rest.head? = some c → p c = false) :
    (⟨offset, s ++ rest⟩ : Place).skip p = ⟨offset + Text.byteLength s, rest⟩ := by
  rw [Place.skip, Text.takeWhile_run_append hs hr, Text.dropWhile_run_append hs hr]

namespace RawAttribute

theorem afterEquals_equals (offset : Nat) (rest : Text) :
    afterEquals ⟨offset, '=' :: rest⟩ = .ok ⟨offset + 1, rest⟩ := rfl

theorem readValue_quoted {raw : Text} (offset : Nat) (rest : Text) (h : '\x22' ∉ raw) :
    readValue ⟨offset, '\x22' :: (raw ++ '\x22' :: rest)⟩ =
      .ok ('\x22', raw, offset, ⟨offset + 1 + Text.byteLength raw + 1, rest⟩) := by
  have hraw : ∀ c ∈ raw, (c != '\x22') = true := fun c hc => bne_iff_ne.2 (ne_of_mem_of_not_mem hc h)
  have hskip : (⟨offset, '\x22' :: (raw ++ '\x22' :: rest)⟩ : Place).skip isGap =
      ⟨offset, '\x22' :: (raw ++ '\x22' :: rest)⟩ := rfl
  have hclose := Place.skip_append (offset + 1) ('\x22' :: rest) hraw (by rintro _ ⟨⟩; rfl)
  unfold readValue
  simp only [hskip, hclose, show isQuote '\x22' = true from rfl, if_true]
  rw [List.takeWhile_append_of_pos hraw]
  simp

/-- Reading takes one written attribute and leaves what follows it. -/
theorem exists_read?_attributeText {key : Text} (value rest : Text) {seen : List (Text × Nat)} (offset : Nat)
    (hk : IsPlainName key) (hseen : seen.lookup key = none) :
    ∃ raw after, read? seen ⟨offset, Sheet.attributeText key value ++ rest⟩ = .ok (some (raw, after)) ∧
      raw.key = key ∧ raw.raw = escape value ∧ after.ahead = rest := by
  have hplain := hk.isPlain_of_mem
  obtain ⟨c, key, rfl⟩ := List.exists_cons_of_ne_nil hk.1
  rw [List.forall_mem_cons] at hplain
  have htext : Sheet.attributeText (c :: key) value ++ rest =
      [' '] ++ c :: (key ++ '=' :: '\x22' :: (escape value ++ '\x22' :: rest)) := by
    simp [Sheet.attributeText]
  have hstart := Place.skip_append (p := isGap) (s := [' ']) offset
    (c :: (key ++ '=' :: '\x22' :: (escape value ++ '\x22' :: rest))) (List.forall_mem_singleton.2 rfl)
    (by rintro _ ⟨⟩; exact isGap_of_isPlain hplain.1)
  have hkey : ∀ d ∈ key, continuesKey d = true := fun d hd => continuesKey_of_isPlain (hplain.2 d hd)
  have hafter := fun o => Place.skip_append o ('=' :: '\x22' :: (escape value ++ '\x22' :: rest)) hkey
    (by rintro _ ⟨⟩; rfl)
  have hquote : '\x22' ∉ escape value := not_mem_escape (by decide) (by decide) value
  have hread : ∃ keyOffset valueOffset stop,
      read? seen ⟨offset, Sheet.attributeText (c :: key) value ++ rest⟩ =
        .ok (some (⟨c :: key, keyOffset, '\x22', escape value, valueOffset⟩, ⟨stop, rest⟩)) := by
    rw [read?, htext, hstart]
    simp only [hafter, afterEquals_equals]
    rw [List.takeWhile_append_of_pos hkey, List.takeWhile_cons_of_neg (by decide), List.append_nil]
    simp only [checkFresh, hseen, bind, Except.bind, readValue_quoted _ _ hquote, pure, Except.pure]
    exact ⟨_, _, _, rfl⟩
  obtain ⟨_, _, _, hread⟩ := hread
  exact ⟨_, _, hread, rfl, rfl, rfl⟩

end RawAttribute

/-- An attribute whose references stand for characters is put before those that follow. -/
theorem readAttributes_cons {base : Nat} {seen : List (Text × Nat)} {here after : Place} {raw : RawAttribute}
    {value : Text} {others : List Attribute} (h : RawAttribute.read? seen here = .ok (some (raw, after)))
    (hv : unescape raw.raw = .ok value)
    (ho : readAttributes base ((raw.key, raw.keyOffset) :: seen) after = .ok others) :
    ∃ first, readAttributes base seen here = .ok (first :: others) ∧ first.name = Name.ofText raw.key ∧
      first.value = value := by
  rw [readAttributes]
  split
  · next heq => cases h.symm.trans heq
  · next heq => cases h.symm.trans heq
  · next heq =>
    cases h.symm.trans heq
    simp only [RawAttribute.resolve, hv, bind, Except.bind, pure, Except.pure, ho]
    exact ⟨_, rfl, rfl, rfl⟩

/-- Reading gives the attributes as they were before they were written. -/
theorem exists_readAttributes {attributes : List (Text × Text)} (base offset : Nat) (seen : List (Text × Nat))
    (ha : ArePlainAttributes attributes) (hseen : ∀ a ∈ attributes, seen.lookup a.1 = none) :
    ∃ read, readAttributes base seen ⟨offset, Sheet.attributesText attributes⟩ = .ok read ∧
      read.map (fun a => (a.name, a.value)) = attributes.map fun a => (Name.ofText a.1, a.2) := by
  induction attributes generalizing offset seen with
  | nil =>
    refine ⟨[], ?_, rfl⟩
    have hnone : RawAttribute.read? seen ⟨offset, []⟩ = .ok none := rfl
    rw [Sheet.attributesText, List.flatMap_nil, readAttributes]
    split
    · next heq => cases hnone.symm.trans heq
    · rfl
    · next heq => cases hnone.symm.trans heq
  | cons a attributes ih =>
    obtain ⟨hplain, hnodup⟩ := ha
    rw [List.forall_mem_cons] at hplain hseen
    rw [List.map_cons, List.nodup_cons] at hnodup
    obtain ⟨raw, ⟨stop, _⟩, hread, hkey, hraw, rfl⟩ :=
      RawAttribute.exists_read?_attributeText a.2 (Sheet.attributesText attributes) offset hplain.1 hseen.1
    -- the invariant of the recursion: no key to come is among those seen
    have hfresh : ∀ b ∈ attributes, ((raw.key, raw.keyOffset) :: seen).lookup b.1 = none := by
      intro b hb
      have hne : b.1 ≠ raw.key := by
        rw [hkey]
        exact fun he => hnodup.1 (he ▸ List.mem_map_of_mem hb)
      rw [List.lookup_cons, beq_eq_false_iff_ne.2 hne]
      exact hseen.2 b hb
    obtain ⟨others, hothers, hmap⟩ := ih stop _ ⟨hplain.2, hnodup.2⟩ hfresh
    obtain ⟨first, hfirst, hname, hvalue⟩ :=
      readAttributes_cons hread (by rw [hraw]; exact unescape_escape a.2) hothers
    refine ⟨first :: others, ?_, ?_⟩
    · rw [Sheet.attributesText_cons]
      exact hfirst
    · rw [List.map_cons, List.map_cons, hmap, hname, hvalue, hkey]

/-- Reading the content of a written start tag gives its name and attributes. -/
theorem exists_tagRead {name : Text} {attributes : List (Text × Text)} (base : Nat) (hn : IsPlainName name)
    (ha : ArePlainAttributes attributes) :
    ∃ tag, Tag.read base (name ++ Sheet.attributesText attributes) = .ok tag ∧
      tag.name = Name.ofText name ∧
      tag.attributes.map (fun a => (a.name, a.value)) = attributes.map fun a => (Name.ofText a.1, a.2) := by
  have hname : ∀ c ∈ name, continuesName c = true := fun c hc => continuesName_of_isPlain (hn.isPlain_of_mem c hc)
  have hend : ∀ c, (Sheet.attributesText attributes).head? = some c → continuesName c = false := by
    intro c hc
    rw [Sheet.head?_attributesText hc]
    rfl
  have hskip := Place.skip_append 0 _ hname hend
  have htake := Text.takeWhile_run_append hname hend
  obtain ⟨read, hread, hmap⟩ := exists_readAttributes base (0 + Text.byteLength name) [] ha (by simp)
  rw [Tag.read, hskip, hread, htake]
  exact ⟨_, rfl, rfl, hmap⟩

end LintFixture.Markup
