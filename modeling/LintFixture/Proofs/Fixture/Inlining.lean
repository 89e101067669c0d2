import LintFixture.Fixture.Fragments
import LintFixture.Fixture.Overrides
import LintFixture.Proofs.Agreement
import LintFixture.Proofs.Fixture.Parts
import LintFixture.Proofs.Markup.Children
import Mathlib.Logic.Relation

/-!
# Code in fragments

Where the code of an entry stands makes no difference. A fragment may be written
out in the entries that refer to it (`Inlines`), and the fragments of a root may
stand anywhere between its other children (`Rearranges`): what is read and what is
handed on stay the same (`Suite.ofDocumentWith_rearranged`), also when the
fragments are collected into a table before the first entry is read.
-/

namespace LintFixture.Fixture

open Markup

/-! ## The table of fragments -/

namespace Fragments

/-- A fragment is found under its own id from then on, and nothing else changes. -/
theorem find?_add (table : Fragments) (fragment : Element) (id : Text) :
    (table.add fragment).find? id =
      if fragment.attribute? Vocabulary.id = some id then some fragment else table.find? id := by
  unfold add find?
  cases hown : fragment.attribute? Vocabulary.id with
  | none => rfl
  | some own =>
    by_cases h : own = id
    · rw [if_pos (congrArg some h), ← h]
      exact AList.lookup_insert table
    · rw [if_neg fun hid => h (Option.some.inj hid)]
      exact AList.lookup_insert_ne (Ne.symm h)

/-- Of several fragments with one id the table keeps the last. -/
theorem find?_foldl_add (fragments : List Element) (id : Text) :
    (fragments.foldl add ∅).find? id =
      fragments.reverse.find? fun fragment => fragment.attribute? Vocabulary.id == some id := by
  induction fragments using List.reverseRecOn with
  | nil => rfl
  | append_singleton fragments last ih =>
    rw [List.foldl_append, List.foldl_cons, List.foldl_nil, find?_add, ih, List.reverse_append,
      List.reverse_singleton, List.singleton_append, List.find?_cons]
    by_cases h : last.attribute? Vocabulary.id = some id
    · rw [if_pos h, beq_iff_eq.2 h]
    · rw [if_neg h, beq_eq_false_iff_ne.2 h]

theorem find?_ofRoot (root : Element) : (ofRoot root).find? = Schema.fragment? root :=
  funext fun id => find?_foldl_add (root.childrenNamed Vocabulary.codeFragment) id

end Fragments

/-- The table gives what the search among the children of the root gives. -/
theorem Suite.ofDocumentTabled_eq {σ : Type} (record : σ → Override → σ) (state : σ) (document : Document) :
    ofDocumentTabled record state document = ofDocumentWith record state document := by
  have hroot : Schema.readRootTabled document.root = Schema.readRoot document.root := by
    simp only [Schema.readRootTabled, Schema.readRoot, Fragments.find?_ofRoot]
  unfold ofDocumentTabled ofDocumentWith
  generalize Schema.readRootTabled document.root = read at hroot ⊢
  subst hroot
  rfl

namespace Schema

/-! ## Entries with the same code -/

/-- Two entries alike in all but the children their code is taken from, and of one code. -/
structure SameButCode (fragments : Text → Option Element) (e e' : Element) : Prop where
  tag : e'.tag = e.tag
  span : e'.span = e.span
  childrenNamed : ∀ name, name ≠ Vocabulary.code → name ≠ Vocabulary.codeRef →
    e'.childrenNamed name = e.childrenNamed name
  code : readCode fragments e' = readCode fragments e

namespace SameButCode

variable {fragments : Text → Option Element} {e e' : Element}

theorem refl (fragments : Text → Option Element) (e : Element) : SameButCode fragments e e :=
  ⟨rfl, rfl, fun _ _ _ => rfl, rfl⟩

theorem attribute?_eq (h : SameButCode fragments e e') (name : Text) : e'.attribute? name = e.attribute? name := by
  rw [Element.attribute?, Element.attribute?, h.tag]

theorem child?_eq (h : SameButCode fragments e e') {name : Text} (hc : name ≠ Vocabulary.code)
    (hr : name ≠ Vocabulary.codeRef) : e'.child? name = e.child? name := by
  rw [Element.child?_eq, Element.child?_eq, h.childrenNamed name hc hr]

theorem spanOf_eq (h : SameButCode fragments e e') {name : Text} (hc : name ≠ Vocabulary.code)
    (hr : name ≠ Vocabulary.codeRef) : spanOf e' name = spanOf e name := by
  rw [spanOf, spanOf, h.child?_eq hc hr]
  cases e.child? name with
  | none => exact h.span
  | some child => rfl

theorem optionalText_eq (h : SameButCode fragments e e') {name : Text} (hc : name ≠ Vocabulary.code)
    (hr : name ≠ Vocabulary.codeRef) : optionalText e' name = optionalText e name := by
  rw [optionalText, optionalText, h.child?_eq hc hr]

theorem requiredText_eq (h : SameButCode fragments e e') {name : Text} (hc : name ≠ Vocabulary.code)
    (hr : name ≠ Vocabulary.codeRef) : requiredText e' name = requiredText e name := by
  rw [requiredText, requiredText, h.optionalText_eq hc hr, h.span]

theorem readCount_eq (h : SameButCode fragments e e') : readCount e' = readCount e := by
  rw [readCount, readCount, h.requiredText_eq (by decide) (by decide), h.spanOf_eq (by decide) (by decide)]

theorem readLines_eq (h : SameButCode fragments e e') : readLines e' = readLines e := by
  have hline : readLine e' = readLine e := by
    funext item
    rw [readLine, readLine, h.spanOf_eq (by decide) (by decide)]
  rw [readLines, readLines, h.optionalText_eq (by decide) (by decide), hline]

theorem checkLength_eq {α : Type} (h : SameButCode fragments e e') (listing : Listing) (count : Nat)
    (items : Option (List α)) : checkLength e' listing count items = checkLength e listing count items := by
  have hspan : spanOf e' listing.element = spanOf e listing.element := by
    cases listing <;> exact h.spanOf_eq (by decide) (by decide)
  cases items with
  | none => rfl
  | some items => rw [checkLength, checkLength, hspan]

theorem readLocations_eq (h : SameButCode fragments e e') (source : Text) (count : Nat)
    (lines : Option (List Nat)) : readLocations e' source count lines = readLocations e source count lines := by
  have hlocate : locate e' source = locate e source := by
    funext line
    rw [locate, locate, h.spanOf_eq (by decide) (by decide)]
  cases lines with
  | none => rfl
  | some lines => rw [readLocations, readLocations, hlocate]

theorem readFlag_eq (h : SameButCode fragments e e') (setting : Text) (off : List Text) :
    readFlag e' setting off = readFlag e setting off := by
  rw [readFlag, readFlag, h.attribute?_eq]

theorem readBody_eq (h : SameButCode fragments e e') : readBody fragments e' = readBody fragments e := by
  have hmessages : readMessages e' = readMessages e := by
    rw [readMessages, readMessages, h.child?_eq (by decide) (by decide)]
  have htype : optionalText e' Vocabulary.sourceType = optionalText e Vocabulary.sourceType :=
    h.optionalText_eq (by decide) (by decide)
  have hdescription : requiredText e' Vocabulary.description = requiredText e Vocabulary.description :=
    h.requiredText_eq (by decide) (by decide)
  simp only [readBody, readDescribed, assemble, hdescription, h.readCount_eq, hmessages, h.readLines_eq, h.code,
    h.checkLength_eq, h.readLocations_eq, htype, h.readFlag_eq]

theorem readCase_eq (h : SameButCode fragments e e') : readCase fragments e' = readCase fragments e := by
  have hproperties := h.childrenNamed Vocabulary.ruleProperty (by decide) (by decide)
  simp only [readCase, readProperties, h.readBody_eq, hproperties]

/-- Such entries are read alike: the case, the properties, and the flaw with the description it is told with. -/
theorem readEntry_eq (h : SameButCode fragments e e') (index : Nat) :
    readEntry fragments e' index = readEntry fragments e index := by
  rw [readEntry, readEntry, h.readCase_eq, h.optionalText_eq (by decide) (by decide)]

end SameButCode

/-- A root is read as another with the same fragments and, entry by entry, the same but for where the code stands. -/
theorem readRoot_congr {root other : Element} (htag : other.tag = root.tag) (hf : fragment? other = fragment? root)
    (he : List.Forall₂ (SameButCode (fragment? root)) (root.childrenNamed Vocabulary.testCode)
      (other.childrenNamed Vocabulary.testCode)) : readRoot other = readRoot root := by
  have hentries : ((other.childrenNamed Vocabulary.testCode).zipIdx.mapM fun p =>
      readEntry (fragment? other) p.1 p.2) =
      (root.childrenNamed Vocabulary.testCode).zipIdx.mapM fun p => readEntry (fragment? root) p.1 p.2 := by
    rw [hf]
    refine (mapM_congr ((forall₂_zipIdx he 0).imp ?_)).symm
    rintro ⟨e, index⟩ ⟨e', _⟩ ⟨hsame, rfl⟩
    exact (hsame.readEntry_eq index).symm
  have hname : other.name = root.name := by
    rw [Element.name, Element.name, htag]
  rw [readRoot, readRoot, hname, htag]
  exact ite_congr rfl (fun _ => congrArg (· >>= _) hentries) fun _ => rfl

end Schema

/-! ## Writing a fragment out -/

/-- The entry without code, and the same entry with the code of the fragment it refers to: in place of the first
reference stands an element that holds what the last fragment of its id holds. -/
inductive Inlines (root e : Element) : Element → Prop
  | intro {before after : List (Child Element)} {reference fragment code : Element} {id : Text}
    (isEntry : e.name = Vocabulary.testCode) (bare : e.child? Vocabulary.code = none)
    (split : e.children = before ++ .element reference :: after)
    (first : ∀ x, .element x ∈ before → x.name ≠ Vocabulary.codeRef)
    (isReference : reference.name = Vocabulary.codeRef) (refers : reference.attribute? Vocabulary.id = some id)
    (last : Schema.IsLast (·.attribute? Vocabulary.id = some id) (root.childrenNamed Vocabulary.codeFragment)
      fragment)
    (isCode : code.name = Vocabulary.code) (holds : code.children = fragment.children) :
    Inlines root e { e with children := before ++ .element code :: after }

namespace Inlines

variable {root e inlined : Element}

/-- An entry can be written out exactly when it has no code and refers to the id of some fragment. -/
theorem exists_iff : (∃ inlined, Inlines root e inlined) ↔
    e.name = Vocabulary.testCode ∧ e.child? Vocabulary.code = none ∧
      ∃ reference id, e.child? Vocabulary.codeRef = some reference ∧ reference.attribute? Vocabulary.id = some id ∧
        ∃ fragment ∈ root.childrenNamed Vocabulary.codeFragment, fragment.attribute? Vocabulary.id = some id := by
  constructor
  · rintro ⟨_, isEntry, bare, split, first, isReference, refers, ⟨hid, front, back, hsplit, -⟩, -, -⟩
    have hmem := hsplit ▸ List.mem_append_right front List.mem_cons_self
    exact ⟨isEntry, bare, _, _, Element.child?_eq_some_iff.2 ⟨_, _, split, isReference, first⟩, refers, _, hmem, hid⟩
  · rintro ⟨isEntry, bare, reference, id, hreference, refers, fragment, hmem, hid⟩
    obtain ⟨before, after, split, isReference, first⟩ := Element.child?_eq_some_iff.1 hreference
    obtain ⟨last, hlast⟩ := Schema.exists_isLast hmem hid
    let code : Element := { last with tag := { last.tag with name := ⟨none, Vocabulary.code⟩ } }
    exact ⟨{ e with children := before ++ .element code :: after },
      .intro isEntry bare split first isReference refers hlast rfl rfl⟩

/-- The code is the same, and no other child of the entry is touched. -/
theorem sameButCode (h : Inlines root e inlined) : Schema.SameButCode (Schema.fragment? root) e inlined := by
  obtain @⟨before, after, reference, fragment, code, id, -, bare, split, first, isReference, refers, last, isCode,
    holds⟩ := h
  refine ⟨rfl, rfl, fun name hc hr => ?_, ?_⟩
  · rw [Element.childrenNamed_of_split split (isReference ▸ Ne.symm hr), Element.childrenNamed_of_split rfl (isCode ▸ Ne.symm hc)]
  · have hinline : Schema.readCode (Schema.fragment? root) { e with children := before ++ .element code :: after } =
        .ok code.innerText := by
      rw [Schema.readCode_eq_ok_iff]
      refine .inline (Element.child?_eq_some_iff.2 ⟨before, after, rfl, isCode, fun y hy => ?_⟩)
      exact Element.child?_eq_none_iff.1 bare y (split ▸ List.mem_append_left _ hy)
    have hreferred : Schema.readCode (Schema.fragment? root) e = .ok fragment.innerText := by
      rw [Schema.readCode_eq_ok_iff]
      exact .fragment bare (Element.child?_eq_some_iff.2 ⟨before, after, split, isReference, first⟩) refers last
    rw [hinline, hreferred, Element.innerText, Element.runs, holds]
    rfl

end Inlines

/-! ## Roots -/

/-- A child of a root that stays, or an entry whose code is written out. -/
inductive Rewritten (root : Element) : Child Element → Child Element → Prop
  | kept (c : Child Element) : Rewritten root c c
  | inlined {e e' : Element} (h : Inlines root e e') : Rewritten root (.element e) (.element e')

/-- The child is a code fragment. -/
def isFragment : Child Element → Bool
  | .text _ => false
  | .element e => e.name == Vocabulary.codeFragment

/-- One change of a root: in any of its entries the code is written out, or the fragments are moved among the other
children without one passing another. -/
inductive Rearranges (root : Element) : Element → Prop
  | inlined {children : List (Child Element)} (h : List.Forall₂ (Rewritten root) root.children children) :
    Rearranges root { root with children }
  | moved {children : List (Child Element)}
    (fragments : children.filter isFragment = root.children.filter isFragment)
    (others : children.filter (!isFragment ·) = root.children.filter (!isFragment ·)) :
    Rearranges root { root with children }

theorem Inlines.name_eq {root e inlined : Element} (h : Inlines root e inlined) : inlined.name = e.name := by
  rw [Element.name, Element.name, h.sameButCode.tag]

namespace Rewritten

variable {root : Element} {children children' : List (Child Element)}

theorem forall₂_elements (h : List.Forall₂ (Rewritten root) children children') :
    List.Forall₂ (fun e e' => e' = e ∨ Inlines root e e') (children.filterMap Child.element?)
      (children'.filterMap Child.element?) := by
  induction h with
  | nil => exact .nil
  | @cons c _ _ _ hc _ ih =>
    cases hc with
    | kept =>
      cases c with
      | text run => exact ih
      | element e => exact .cons (.inl rfl) ih
    | inlined h => exact .cons (.inr h) ih

theorem forall₂_childrenNamed (h : List.Forall₂ (Rewritten root) root.children children') (name : Text) :
    List.Forall₂ (fun e e' => (e' = e ∨ Inlines root e e') ∧ (e.name == name) = true) (root.childrenNamed name)
      (Element.childrenNamed { root with children := children' } name) := by
  refine forall₂_filter ?_ (forall₂_elements h)
  rintro e e' (rfl | h)
  · rfl
  · rw [h.name_eq]

/-- Fragments are no entries, so they all stay. -/
theorem fragments_eq (h : List.Forall₂ (Rewritten root) root.children children') :
    Element.childrenNamed { root with children := children' } Vocabulary.codeFragment =
      root.childrenNamed Vocabulary.codeFragment := by
  refine (List.forall₂_eq_eq_eq ▸ (forall₂_childrenNamed h Vocabulary.codeFragment).imp ?_ : _ = _).symm
  rintro e e' ⟨rfl | hinlines, hname⟩
  · rfl
  · obtain ⟨isEntry, -⟩ := Inlines.exists_iff.1 ⟨_, hinlines⟩
    exact absurd (isEntry.symm.trans (beq_iff_eq.1 hname)) (by decide)

/-- Each entry stays, or differs in where its code stands. -/
theorem entries (h : List.Forall₂ (Rewritten root) root.children children') :
    List.Forall₂ (Schema.SameButCode (Schema.fragment? root)) (root.childrenNamed Vocabulary.testCode)
      (Element.childrenNamed { root with children := children' } Vocabulary.testCode) := by
  refine (forall₂_childrenNamed h Vocabulary.testCode).imp ?_
  rintro e e' ⟨rfl | hinlines, -⟩
  · exact .refl _ _
  · exact hinlines.sameButCode

end Rewritten

namespace Rearranges

variable {root other : Element}

/-- The children of each name stay in order when fragments are moved. -/
theorem childrenNamed_moved {children : List (Child Element)}
    (fragments : children.filter isFragment = root.children.filter isFragment)
    (others : children.filter (!isFragment ·) = root.children.filter (!isFragment ·)) (name : Text) :
    Element.childrenNamed { root with children } name = root.childrenNamed name := by
  by_cases hname : name = Vocabulary.codeFragment
  · have hp : ∀ x : Element, x.name = name → isFragment (.element x) = true := fun x hx =>
      beq_iff_eq.2 (hx.trans hname)
    simp only [Element.childrenNamed_eq_filter hp, fragments]
  · have hp : ∀ x : Element, x.name = name → (!isFragment (.element x)) = true := fun x hx => by
      rw [isFragment, hx, beq_eq_false_iff_ne.2 hname]
      rfl
    simp only [Element.childrenNamed_eq_filter (p := (!isFragment ·)) hp, others]

theorem fragments_eq (h : Rearranges root other) :
    other.childrenNamed Vocabulary.codeFragment = root.childrenNamed Vocabulary.codeFragment := by
  cases h with
  | inlined h => exact Rewritten.fragments_eq h
  | moved fragments others => exact childrenNamed_moved fragments others _

theorem entries (h : Rearranges root other) :
    List.Forall₂ (Schema.SameButCode (Schema.fragment? root)) (root.childrenNamed Vocabulary.testCode)
      (other.childrenNamed Vocabulary.testCode) := by
  cases h with
  | inlined h => exact Rewritten.entries h
  | moved fragments others =>
    rw [childrenNamed_moved fragments others]
    exact List.forall₂_same.2 fun e _ => .refl _ e

/-- One change leaves what is read as it is. -/
theorem readRoot_eq (h : Rearranges root other) : Schema.readRoot other = Schema.readRoot root := by
  have htag : other.tag = root.tag := by
    cases h <;> rfl
  have hfragment : Schema.fragment? other = Schema.fragment? root := by
    funext id
    rw [Schema.fragment?, Schema.fragment?, h.fragments_eq]
  exact Schema.readRoot_congr htag hfragment h.entries

end Rearranges

theorem readRoot_of_reflTransGen {root other : Element} (h : Relation.ReflTransGen Rearranges root other) :
    Schema.readRoot other = Schema.readRoot root := by
  induction h with
  | refl => rfl
  | tail _ hstep ih => rw [hstep.readRoot_eq, ih]

/-- However often code is written out and fragments are moved, the same suite or the same error is read and the same
properties are handed on, in the same order. -/
theorem Suite.ofDocumentWith_rearranged {σ : Type} (record : σ → Override → σ) (state : σ) {d other : Document}
    (h : Relation.ReflTransGen Rearranges d.root other.root) :
    ofDocumentWith record state other = ofDocumentWith record state d ∧
      ofDocumentTabled record state other = ofDocumentTabled record state d := by
  have hsame : ofDocumentWith record state other = ofDocumentWith record state d := by
    rw [ofDocumentWith, ofDocumentWith, readRoot_of_reflTransGen h]
  exact ⟨hsame, by rw [ofDocumentTabled_eq, ofDocumentTabled_eq, hsame]⟩

namespace Scattered

/-- An element that stands nowhere in particular. -/
def node (name : Text) (attributes : List (Text × Text)) (children : List (Child Element)) : Element where
  tag := ⟨⟨none, name⟩, ⟨0, 0⟩, attributes.map fun (key, value) => ⟨⟨none, key⟩, ⟨0, 0⟩, value, ⟨0, 0⟩⟩⟩
  span := ⟨0, 0⟩
  children

def text (t : String) : Child Element := .text ⟨t.toList, ⟨0, 0⟩⟩

def fragment (attributes : List (Text × Text)) (t : String) : Child Element :=
  .element (node Vocabulary.codeFragment attributes [text t])

def front : List (Child Element) :=
  [.element (node Vocabulary.description [] [text "d"]),
    .element (node Vocabulary.expectedProblems [] [text "0"])]

def reference : Element := node Vocabulary.codeRef [(Vocabulary.id, ['a'])] []

def back : List (Child Element) :=
  [.element (node Vocabulary.codeRef [] []),
    .element (node Vocabulary.ruleProperty [(Vocabulary.name, ['p'])] [text " 1 "])]

def entry : Element := node Vocabulary.testCode [] (front ++ .element reference :: back)

/-- The entry with the later one of two fragments. -/
def inlined : Element :=
  node Vocabulary.testCode [] (front ++ .element (node Vocabulary.code [] [text "new"]) :: back)

/-- Fragments before and behind the entry: two of one id and one of none. -/
def root : Element :=
  node Vocabulary.testData [] [fragment [(Vocabulary.id, ['a'])] "old", .element entry, text " ",
    fragment [] "other", fragment [(Vocabulary.id, ['a'])] "new"]

/-- The root with the code written out. -/
def written : Element :=
  node Vocabulary.testData [] [fragment [(Vocabulary.id, ['a'])] "old", .element inlined, text " ",
    fragment [] "other", fragment [(Vocabulary.id, ['a'])] "new"]

/-- The same with the fragments behind everything else. -/
def gathered : Element :=
  node Vocabulary.testData [] [.element inlined, text " ", fragment [(Vocabulary.id, ['a'])] "old",
    fragment [] "other", fragment [(Vocabulary.id, ['a'])] "new"]

theorem inlines : Inlines root entry inlined := by
  have hlast : Schema.fragment? root ['a'] = some (node Vocabulary.codeFragment [(Vocabulary.id, ['a'])] [text "new"]) :=
    rfl
  have hfirst : ∀ x, .element x ∈ front → x.name ≠ Vocabulary.codeRef := by
    simp only [front, List.mem_cons, Child.element.injEq, List.not_mem_nil, or_false]
    rintro x (rfl | rfl) <;> decide
  have hsplit : entry.children = front ++ .element reference :: back := rfl
  exact .intro rfl rfl hsplit hfirst rfl rfl (Schema.fragment?_eq_some_iff.1 hlast) rfl rfl

theorem rearranges : Relation.ReflTransGen Rearranges root gathered := by
  refine .tail (.single (b := written) (.inlined ?_)) (.moved rfl rfl)
  exact .cons (.kept _) <| .cons (.inlined inlines) <| .cons (.kept _) <| .cons (.kept _) <| .cons (.kept _) .nil

end Scattered

/-- The later fragment is what counts, here and there, and the property is handed on. -/
theorem Suite.ofDocumentWith_rearranged_scattered :
    Relation.ReflTransGen Rearranges Scattered.root Scattered.gathered ∧
      ofDocumentWith Overrides.record .empty ⟨Scattered.root, ⟨0, 0⟩⟩ =
        (.ok ⟨[{ description := ['d'], source := "new".toList, properties := .ofList [(['p'], ['1'])] }]⟩,
          ⟨[(0, .ofList [(['p'], ['1'])])]⟩) ∧
      ofDocumentWith Overrides.record .empty ⟨Scattered.gathered, ⟨0, 0⟩⟩ =
        ofDocumentWith Overrides.record .empty ⟨Scattered.root, ⟨0, 0⟩⟩ ∧
      ofDocumentTabled Overrides.record .empty ⟨Scattered.gathered, ⟨0, 0⟩⟩ =
        ofDocumentTabled Overrides.record .empty ⟨Scattered.root, ⟨0, 0⟩⟩ :=
  ⟨Scattered.rearranges, rfl, ofDocumentWith_rearranged Overrides.record .empty Scattered.rearranges⟩

end LintFixture.Fixture
