import LintFixture.Proofs.Fixture.Schema
import LintFixture.Proofs.Markup.Padding

/-!
# The layout of a fixture

The text directly inside the elements that only hold other elements is never looked
at (`Vocabulary.containers`). So fixtures with roots that are alike but for that text
are read as the same suite or have one error but for its spans (`Schema.agree_readRoot`),
and blank text, comments and instructions can be put in there.
-/

namespace LintFixture.Fixture

open Markup
open Text (byteLength)

variable {k : Nat}

/-- The names of the elements that hold other elements and no text of their own. -/
def Vocabulary.containers : List Text := [testData, testCode, expectedMessages]

/-! ## Errors up to their spans -/

/-- The same flaw, with its span up to `k` bytes further on. -/
structure Flaw.Moved (k : Nat) (flaw flaw' : Flaw) : Prop where
  span : flaw.span.Moved k flaw'.span
  fault : flaw'.fault = flaw.fault

/-- The same error, with its span up to `k` bytes further on. -/
inductive Error.Moved (k : Nat) : Error → Error → Prop
  | markup {e e' : Markup.Error} (h : e.Moved k e') : Moved k (.markup e) (.markup e')
  | wrongRoot (found : Text) {s s' : Span} (h : s.Moved k s') : Moved k (.wrongRoot found s) (.wrongRoot found s')
  | schema (index : Nat) (description : Option Text) {s s' : Span} (h : s.Moved k s') (fault : SchemaFault) :
    Moved k (.schema index description s fault) (.schema index description s' fault)

/-- Both stop at faults that are related, or both by an overflow. -/
inductive Stop.Rel {ε ε' : Type} (E : ε → ε' → Prop) : Stop ε → Stop ε' → Prop
  | fault {e : ε} {e' : ε'} (h : E e e') : Rel E (.fault e) (.fault e')
  | overflow : Rel E .overflow .overflow

namespace Schema

/-- Elements that are alike but for the text of containers. -/
abbrev Alike (k : Nat) : Element → Element → Prop := Element.Alike (· ∈ Vocabulary.containers) k

variable {e e' : Element}

/-! ## The parts of an entry -/

theorem textOf_eq (h : Alike k e e') (hname : e.name ∉ Vocabulary.containers) : textOf e' = textOf e := by
  rw [textOf, textOf, h.innerText hname]

theorem optionalText_eq (h : Alike k e e') {name : Text} (hname : name ∉ Vocabulary.containers) :
    optionalText e' name = optionalText e name := by
  have hrel := h.child? name
  rw [optionalText, optionalText]
  generalize e.child? name = c, e'.child? name = c' at hrel ⊢
  cases hrel with
  | none => rfl
  | some hc => exact congrArg some (textOf_eq hc.1 (hc.2 ▸ hname))

theorem agree_requiredText (h : Alike k e e') {name : Text} (hname : name ∉ Vocabulary.containers) :
    Agree (Stop.Rel (Flaw.Moved k)) (· = ·) (requiredText e name) (requiredText e' name) := by
  rw [requiredText, requiredText, optionalText_eq h hname]
  split
  · exact .ok rfl
  · exact .error (.fault ⟨h.span, rfl⟩)

theorem moved_spanOf (h : Alike k e e') (name : Text) : (spanOf e name).Moved k (spanOf e' name) := by
  have hrel := h.child? name
  rw [spanOf, spanOf]
  generalize e.child? name = c, e'.child? name = c' at hrel ⊢
  cases hrel with
  | none => exact h.span
  | some hc => exact hc.1.span

theorem agree_readCount (h : Alike k e e') :
    Agree (Stop.Rel (Flaw.Moved k)) (· = ·) (readCount e) (readCount e') := by
  refine (agree_requiredText h (by decide)).bind ?_
  rintro text _ rfl
  split
  · exact .ok rfl
  · exact .error (.fault ⟨moved_spanOf h _, rfl⟩)

theorem readMessages_eq (h : Alike k e e') : readMessages e' = readMessages e := by
  have hrel := h.child? Vocabulary.expectedMessages
  rw [readMessages, readMessages]
  generalize e.child? Vocabulary.expectedMessages = c, e'.child? Vocabulary.expectedMessages = c' at hrel ⊢
  cases hrel with
  | none => rfl
  | some hlist =>
    refine congrArg some (map_eq_map_iff_forall₂.2 ?_).symm
    exact (hlist.1.childrenNamed Vocabulary.message).imp fun _ _ hc => (textOf_eq hc.1 (hc.2 ▸ by decide)).symm

theorem agree_readLine (h : Alike k e e') (item : Text) :
    Agree (Stop.Rel (Flaw.Moved k)) (· = ·) (readLine e item) (readLine e' item) := by
  rw [readLine, readLine]
  split
  · exact .ok rfl
  · exact .error (.fault ⟨moved_spanOf h _, rfl⟩)

theorem agree_readLines (h : Alike k e e') :
    Agree (Stop.Rel (Flaw.Moved k)) (· = ·) (readLines e) (readLines e') := by
  rw [readLines, readLines, optionalText_eq h (by decide)]
  split
  · exact .ok rfl
  · split
    · exact .ok rfl
    · refine (Agree.mapM (List.forall₂_same.2 fun _ _ => rfl) ?_).bind ?_
      · rintro item _ rfl
        exact agree_readLine h item
      · rintro lines _ rfl
        exact .ok rfl

/-- A fragment is found in both roots or in neither, with the same text. -/
theorem rel_fragment? (h : Alike k e e') (id : Text) :
    Option.Rel (fun c c' => c'.innerText = c.innerText) (fragment? e id) (fragment? e' id) := by
  have hreverse := List.forall₂_reverse_iff.2 (h.childrenNamed Vocabulary.codeFragment)
  have hrel := rel_find? (p := fun fragment => fragment.attribute? Vocabulary.id == some id)
    (q := fun fragment => fragment.attribute? Vocabulary.id == some id)
    (fun _ _ hxy => by rw [hxy.1.attribute?]) hreverse
  unfold fragment?
  generalize List.find? _ _ = c, List.find? _ (e'.childrenNamed Vocabulary.codeFragment).reverse = c' at hrel ⊢
  cases hrel with
  | none => exact .none
  | some hc => exact .some (hc.1.1.innerText (hc.1.2 ▸ by decide))

theorem agree_readCode {fragments fragments' : Text → Option Element}
    (hf : ∀ id, Option.Rel (fun c c' => c'.innerText = c.innerText) (fragments id) (fragments' id))
    (h : Alike k e e') : Agree (Stop.Rel (Flaw.Moved k)) (· = ·) (readCode fragments e) (readCode fragments' e') := by
  have hcode := h.child? Vocabulary.code
  have href := h.child? Vocabulary.codeRef
  rw [readCode, readCode]
  generalize e.child? Vocabulary.code = c, e'.child? Vocabulary.code = c' at hcode ⊢
  generalize e.child? Vocabulary.codeRef = r, e'.child? Vocabulary.codeRef = r' at href ⊢
  cases hcode with
  | some hc => exact .ok (hc.1.innerText (hc.2 ▸ by decide)).symm
  | none =>
    cases href with
    | none => exact .error (.fault ⟨h.span, rfl⟩)
    | @some reference reference' hr =>
      simp only [hr.1.attribute?]
      cases reference.attribute? Vocabulary.id with
      | none => exact .error (.fault ⟨hr.1.span, rfl⟩)
      | some id =>
        have hrel := hf id
        simp only
        generalize fragments id = f, fragments' id = f' at hrel ⊢
        cases hrel with
        | none => exact .error (.fault ⟨hr.1.span, rfl⟩)
        | some hc => exact .ok hc.symm

theorem agree_checkLength {α : Type} (h : Alike k e e') (listing : Listing) (count : Nat) (items : Option (List α)) :
    Agree (Stop.Rel (Flaw.Moved k)) (· = ·) (checkLength e listing count items)
      (checkLength e' listing count items) := by
  cases items with
  | none => exact .ok rfl
  | some items =>
    rw [checkLength, checkLength]
    split
    · exact .ok rfl
    · exact .error (.fault ⟨moved_spanOf h _, rfl⟩)

theorem agree_locate (h : Alike k e e') (source : Text) (line : Nat) :
    Agree (Stop.Rel (Flaw.Moved k)) (· = ·) (locate e source line) (locate e' source line) := by
  rw [locate, locate]
  split
  · exact .ok rfl
  · exact .error (.fault ⟨moved_spanOf h _, rfl⟩)

theorem agree_reserve (count : Nat) : Agree (Stop.Rel (Flaw.Moved k)) (· = ·) (reserve count) (reserve count) := by
  unfold reserve
  split
  · exact .ok rfl
  · exact .error .overflow

theorem agree_readLocations (h : Alike k e e') (source : Text) (count : Nat) (lines : Option (List Nat)) :
    Agree (Stop.Rel (Flaw.Moved k)) (· = ·) (readLocations e source count lines)
      (readLocations e' source count lines) := by
  refine (agree_reserve count).bind fun _ _ _ => ?_
  cases lines with
  | none => exact .ok rfl
  | some lines =>
    refine Agree.mapM (List.forall₂_same.2 fun _ _ => rfl) ?_
    rintro line _ rfl
    exact agree_locate h source line

theorem agree_readProperty (h : Alike k e e') (hname : e.name ∉ Vocabulary.containers) :
    Agree (Stop.Rel (Flaw.Moved k)) (· = ·) (readProperty e) (readProperty e') := by
  rw [readProperty, readProperty, h.attribute?, textOf_eq h hname]
  split
  · exact .ok rfl
  · exact .error (.fault ⟨h.span, rfl⟩)

theorem readFlag_eq (h : Alike k e e') (setting : Text) (off : List Text) :
    readFlag e' setting off = readFlag e setting off := by
  rw [readFlag, readFlag, h.attribute?]

/-! ## Entries and suites -/

theorem agree_readBody {fragments fragments' : Text → Option Element}
    (hf : ∀ id, Option.Rel (fun c c' => c'.innerText = c.innerText) (fragments id) (fragments' id))
    (h : Alike k e e') : Agree (Stop.Rel (Flaw.Moved k)) (· = ·) (readBody fragments e) (readBody fragments' e') := by
  unfold readBody readDescribed assemble
  rw [readMessages_eq h]
  refine (agree_requiredText h (by decide)).bind ?_
  rintro description _ rfl
  refine (agree_readCount h).bind ?_
  rintro count _ rfl
  refine (agree_readLines h).bind ?_
  rintro lines _ rfl
  refine (agree_readCode hf h).bind ?_
  rintro raw _ rfl
  refine (agree_checkLength h _ _ _).bind fun _ _ _ => ?_
  refine (agree_checkLength h _ _ _).bind fun _ _ _ => ?_
  refine (agree_readLocations h _ _ _).bind ?_
  rintro locations _ rfl
  have htype : optionalText e' Vocabulary.sourceType = optionalText e Vocabulary.sourceType :=
    optionalText_eq h (by decide)
  refine .ok ?_
  simp only [readFlag_eq h, htype]

theorem agree_readCase {fragments fragments' : Text → Option Element}
    (hf : ∀ id, Option.Rel (fun c c' => c'.innerText = c.innerText) (fragments id) (fragments' id))
    (h : Alike k e e') : Agree (Stop.Rel (Flaw.Moved k)) (· = ·) (readCase fragments e) (readCase fragments' e') := by
  refine (agree_readBody hf h).bind ?_
  rintro body _ rfl
  refine (Agree.mapM (h.childrenNamed Vocabulary.ruleProperty) fun _ _ hc =>
    agree_readProperty hc.1 (hc.2 ▸ by decide)).bind ?_
  rintro properties _ rfl
  exact .ok rfl

theorem agree_readEntry {fragments fragments' : Text → Option Element}
    (hf : ∀ id, Option.Rel (fun c c' => c'.innerText = c.innerText) (fragments id) (fragments' id))
    (h : Alike k e e') (index : Nat) :
    Agree (Stop.Rel (Error.Moved k)) (· = ·) (readEntry fragments e index) (readEntry fragments' e' index) := by
  have hcase := agree_readCase hf h
  rw [readEntry, readEntry, optionalText_eq h (by decide)]
  generalize readCase fragments e = r, readCase fragments' e' = r' at hcase ⊢
  cases hcase with
  | ok heq =>
    subst heq
    exact .ok rfl
  | error hstop =>
    cases hstop with
    | fault hflaw =>
      simp only [Stop.map, hflaw.fault]
      exact .error (.fault (.schema index _ hflaw.span _))
    | overflow => exact .error .overflow

/-- Roots that are alike hold the same suite, or one error but for its span. -/
theorem agree_readRoot (h : Alike k e e') : Agree (Stop.Rel (Error.Moved k)) (· = ·) (readRoot e) (readRoot e') := by
  rw [readRoot, readRoot, h.name]
  split
  · refine (Agree.mapM (forall₂_zipIdx (h.childrenNamed Vocabulary.testCode) 0) ?_).bind ?_
    · rintro ⟨entry, index⟩ ⟨entry', _⟩ ⟨hentry, rfl⟩
      exact agree_readEntry (rel_fragment? h) hentry.1 index
    · rintro entries _ rfl
      exact .ok rfl
  · exact .error (.fault (.wrongRoot _ h.tag.nameSpan))

end Schema

namespace Suite

variable {front left right back w : Text}

/-- Blank text, comments and instructions that are put between two pieces of markup directly inside a container, or
outside of all elements, change neither the suite nor what is handed on, or move the span of the error and no more. -/
theorem parseWith_padded {σ : Type} (record : σ → Override → σ) (state : σ)
    (h : Between (· ∈ Vocabulary.containers) front left right back) (hw : Padding w)
    (hmark : (front ++ left ++ right ++ back).head? ≠ some '\uFEFF') :
    Agree (Stop.Rel (Error.Moved (byteLength w))) (· = ·) (parseWith record state (front ++ left ++ right ++ back)).1
        (parseWith record state (front ++ left ++ w ++ right ++ back)).1 ∧
      (parseWith record state (front ++ left ++ w ++ right ++ back)).2 =
        (parseWith record state (front ++ left ++ right ++ back)).2 := by
  simp only [List.append_assoc] at hmark ⊢
  have hparse := h.agree_parse hw hmark
  rw [parseWith, parseWith]
  generalize Document.parse _ = d, Document.parse (front ++ (left ++ (w ++ (right ++ back)))) = d' at hparse ⊢
  cases hparse with
  | error he => exact ⟨.error (.fault (.markup he)), rfl⟩
  | @ok d d' hroot =>
    have hread := Schema.agree_readRoot hroot
    simp only [ofDocumentWith]
    generalize Schema.readRoot d.root = r, Schema.readRoot d'.root = r' at hread ⊢
    cases hread with
    | ok heq =>
      subst heq
      exact ⟨.ok rfl, rfl⟩
    | error he => exact ⟨.error he, rfl⟩

/-- The properties handed on so far, and one more. -/
def handOn (sofar : List Override) (next : Override) : List Override := sofar ++ [next]

/-- A fixture up to its first entry, and from there on. -/
def entryFront : Text := ["<?xml version='1.0'?>", "<!-- é -->", "<test-data>"].flatMap String.toList

def entryBack : Text :=
  ["<test-code>", "<description>", "d", "</description>", "<expected-problems>", "0", "</expected-problems>",
    "<rule-property name='a'>", "1", "</rule-property>", "<code/>", "</test-code>", "</test-data>"].flatMap
    String.toList

/-- A line break, a comment and an instruction. -/
def remarks : Text := ["\n", "<!-- <test-code> -->", " ", "<?p > ?>"].flatMap String.toList

theorem padding_remarks : Padding remarks :=
  .blank rfl <| @Padding.comment " <test-code> ".toList _ rfl <| .blank rfl <|
    @Padding.instruction "p > ".toList _ (by decide) rfl .nil

theorem between_entryFront : Between (· ∈ Vocabulary.containers) entryFront ['\n'] [' '] entryBack where
  ends := ⟨[.instruction "xml version='1.0'".toList, .comment " é ".toList, .openTag "test-data".toList],
    by decide +kernel, by simp, by decide⟩
  left_run := by decide
  right_run := by decide
  begins := by
    rintro _ ⟨⟩
    rfl
  references := .inl ⟨['\n'], [' '], unescape_blank rfl, unescape_blank rfl⟩

/-- The remarks stand where the first entry is about to begin; its property is handed on all the same. -/
theorem parseWith_padded_remarks :
    Between (· ∈ Vocabulary.containers) entryFront ['\n'] [' '] entryBack ∧ Padding remarks ∧
      (entryFront ++ ['\n'] ++ [' '] ++ entryBack).head? ≠ some '\uFEFF' ∧
      (parseWith handOn [] (entryFront ++ ['\n'] ++ [' '] ++ entryBack)).2 = [⟨0, ['a'], ['1']⟩] ∧
      Agree (Stop.Rel (Error.Moved (byteLength remarks))) (· = ·)
        (parseWith handOn [] (entryFront ++ ['\n'] ++ [' '] ++ entryBack)).1
        (parseWith handOn [] (entryFront ++ ['\n'] ++ remarks ++ [' '] ++ entryBack)).1 ∧
      (parseWith handOn [] (entryFront ++ ['\n'] ++ remarks ++ [' '] ++ entryBack)).2 =
        (parseWith handOn [] (entryFront ++ ['\n'] ++ [' '] ++ entryBack)).2 :=
  ⟨between_entryFront, padding_remarks, by decide, by decide +kernel,
    parseWith_padded handOn [] between_entryFront padding_remarks (by decide)⟩

/-- An angle bracket is declared as an entity, and counts as one that the document type leaves open. -/
def bracketFront : Text := ["<!DOCTYPE test-data [", "<!ENTITY b \"<\">", "]>", "<test-data>"].flatMap String.toList

def bracketBack : Text := "</test-data>".toList

/-- A comment whose brackets close what was left open. -/
def tagComment : Text := (Token.comment " >><test-data> ".toList).source

/-- A blank is declared as an entity, which stands for nothing to the reader. -/
def entityFront : Text :=
  ["<!DOCTYPE test-data [", "<!ENTITY b \" \">", "]>", "<test-data>", "          "].flatMap String.toList

def entityBack : Text := "&b;</test-data>".toList

def emptyComment : Text := (Token.comment []).source

/-- A comment makes a fixture of a text in which the document type does not end; and a comment moves the error on a
reference by the blanks before it as well, because the run of text that is reported begins behind the comment. -/
theorem not_parseWith_padded :
    (Padding tagComment ∧
      (parseWith handOn [] (bracketFront ++ bracketBack)).1 =
        .error (.fault (.markup (.malformed 0 .unclosedDoctype))) ∧
      (parseWith handOn [] (bracketFront ++ tagComment ++ bracketBack)).1 = .ok ⟨[]⟩ ∧
      ¬ Agree (Stop.Rel (Error.Moved (byteLength tagComment))) (· = ·)
        (parseWith handOn [] (bracketFront ++ bracketBack)).1
        (parseWith handOn [] (bracketFront ++ tagComment ++ bracketBack)).1) ∧
    Padding emptyComment ∧ byteLength emptyComment = 7 ∧
      (parseWith handOn [] (entityFront ++ entityBack)).1 =
        .error (.fault (.markup (.malformed 49 (.text (.unknown ['b'] 11 12))))) ∧
      (parseWith handOn [] (entityFront ++ emptyComment ++ entityBack)).1 =
        .error (.fault (.markup (.malformed 66 (.text (.unknown ['b'] 1 2))))) ∧
      ¬ Agree (Stop.Rel (Error.Moved (byteLength emptyComment))) (· = ·)
        (parseWith handOn [] (entityFront ++ entityBack)).1
        (parseWith handOn [] (entityFront ++ emptyComment ++ entityBack)).1 := by
  have hunclosed : (parseWith handOn [] (bracketFront ++ bracketBack)).1 =
      .error (.fault (.markup (.malformed 0 .unclosedDoctype))) := by decide +kernel
  have hclosed : (parseWith handOn [] (bracketFront ++ tagComment ++ bracketBack)).1 = .ok ⟨[]⟩ :=
    toOption_eq_some_iff.1 (by decide +kernel)
  have hblanks : (parseWith handOn [] (entityFront ++ entityBack)).1 =
      .error (.fault (.markup (.malformed 49 (.text (.unknown ['b'] 11 12))))) := by decide +kernel
  have hcut : (parseWith handOn [] (entityFront ++ emptyComment ++ entityBack)).1 =
      .error (.fault (.markup (.malformed 66 (.text (.unknown ['b'] 1 2))))) := by decide +kernel
  refine ⟨⟨padding_comment rfl, hunclosed, hclosed, ?_⟩, padding_comment rfl, rfl, hblanks, hcut, ?_⟩
  · rw [hunclosed, hclosed]
    rintro ⟨⟩
  · rw [hblanks, hcut]
    rintro (_ | ⟨⟨⟨h⟩⟩⟩)
    exact absurd h.near.2 (by decide)

end Suite

end LintFixture.Fixture
