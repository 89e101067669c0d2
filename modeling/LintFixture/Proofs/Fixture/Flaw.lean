import LintFixture.Fixture.Note
import LintFixture.Proofs.Fixture.Validity
import Mathlib.Order.Bounds.Defs

/-!
# The flaw that is reported

An entry is held against one rule of the schema after the other, and the first rule
it breaks is reported (`checks_readCase`). A document that is refused is blamed on
its first entry with a flaw: by the index, the description and the element that
breaks the rule, whatever comes after that entry (`Suite.exists_blames`).
-/

namespace LintFixture.Fixture

open Grid Markup

namespace Schema

variable {α β : Type} {root e : Element}

/-! ## The rules of an entry -/

/-- What the schema asks of an entry. -/
inductive Rule where
  | has (name : Text)
  | countIsSize
  | linesAreSizes
  | hasCode
  | referenceHasId
  | referenceIsKnown
  | messagesMatch
  | linesMatch
  | linesExist
  | propertiesHaveNames
  deriving DecidableEq, Repr

/-- The order in which an entry is held against the rules. -/
def Rule.order : List Rule :=
  [.has Vocabulary.description, .has Vocabulary.expectedProblems, .countIsSize, .linesAreSizes, .hasCode,
    .referenceHasId, .referenceIsKnown, .messagesMatch, .linesMatch, .linesExist, .propertiesHaveNames]

/-- The entry breaks a rule, and the flaw is this. What is missing is blamed on the entry, all else on the child at
fault; of several children of one name the first counts. -/
inductive Breaks (root e : Element) : Rule → Flaw → Prop
  | has {name : Text} (h : e.child? name = none) : Breaks root e (.has name) ⟨e.span, .missingElement name⟩
  | countIsSize {child : Element} (h : e.child? Vocabulary.expectedProblems = some child)
    (hn : ∀ count, ¬ Declares e count) :
    Breaks root e .countIsSize ⟨child.span, .invalidCount (textOf child)⟩
  | linesAreSizes {child : Element} {before after : List Text} {item : Text}
    (h : e.child? Vocabulary.expectedLines = some child) (hne : textOf child ≠ [])
    (hs : (textOf child).splitOn ',' = before ++ item :: after)
    (hb : ∀ x ∈ before, ∃ line, IsLineItem x line) (hi : ∀ line, ¬ IsLineItem item line) :
    Breaks root e .linesAreSizes ⟨child.span, .invalidLine (Text.trim item)⟩
  | hasCode (h : e.child? Vocabulary.code = none) (hr : e.child? Vocabulary.codeRef = none) :
    Breaks root e .hasCode ⟨e.span, .missingCode⟩
  | referenceHasId {reference : Element} (h : e.child? Vocabulary.code = none)
    (hr : e.child? Vocabulary.codeRef = some reference) (hi : reference.attribute? Vocabulary.id = none) :
    Breaks root e .referenceHasId ⟨reference.span, .missingReference⟩
  | referenceIsKnown {reference : Element} {id : Text} (h : e.child? Vocabulary.code = none)
    (hr : e.child? Vocabulary.codeRef = some reference) (hi : reference.attribute? Vocabulary.id = some id)
    (hf : ∀ fragment ∈ root.childrenNamed Vocabulary.codeFragment, fragment.attribute? Vocabulary.id ≠ some id) :
    Breaks root e .referenceIsKnown ⟨reference.span, .unknownFragment id⟩
  | messagesMatch {child : Element} {count : Nat} (h : e.child? Vocabulary.expectedMessages = some child)
    (hn : Declares e count) (hl : (child.childrenNamed Vocabulary.message).length ≠ count) :
    Breaks root e .messagesMatch
      ⟨child.span, .countMismatch .messages count (child.childrenNamed Vocabulary.message).length⟩
  | linesMatch {child : Element} {lines : List Nat} {count : Nat}
    (h : e.child? Vocabulary.expectedLines = some child) (hs : Lists (textOf child) lines)
    (hn : Declares e count) (hl : lines.length ≠ count) :
    Breaks root e .linesMatch ⟨child.span, .countMismatch .lines count lines.length⟩
  | linesExist {child : Element} {before after : List Nat} {line : Nat} {raw : Text}
    (h : e.child? Vocabulary.expectedLines = some child) (hs : Lists (textOf child) (before ++ line :: after))
    (hr : CodeOf root e raw) (hb : ∀ x ∈ before, x ≤ countLines (Snippet.extract raw))
    (ho : countLines (Snippet.extract raw) < line) :
    Breaks root e .linesExist ⟨child.span, .lineOutside line (countLines (Snippet.extract raw))⟩
  | propertiesHaveNames {before after : List Element} {property : Element}
    (h : e.childrenNamed Vocabulary.ruleProperty = before ++ property :: after)
    (hb : ∀ x ∈ before, ∃ name, x.attribute? Vocabulary.name = some name)
    (hp : property.attribute? Vocabulary.name = none) :
    Breaks root e .propertiesHaveNames ⟨property.span, .unnamedProperty⟩

/-- Of the rules, in their order, the entry breaks one before all others, and the flaw is this. -/
def BreaksFirst (root e : Element) (rules : List Rule) (flaw : Flaw) : Prop :=
  ∃ before rule after, rules = before ++ rule :: after ∧ Breaks root e rule flaw ∧
    ∀ earlier ∈ before, ∀ other, ¬ Breaks root e earlier other

/-! ## Steps that check rules -/

/-- A step checks rules: it succeeds only if the entry breaks none of them, and reports the first one broken. -/
structure Checks (root e : Element) (rules : List Rule) (step : Except (Stop Flaw) α) : Prop where
  clear : ∀ a, step = .ok a → ∀ rule ∈ rules, ∀ flaw, ¬ Breaks root e rule flaw
  first : ∀ flaw, step = .error (.fault flaw) → BreaksFirst root e rules flaw

theorem Checks.ok (a : α) : Checks root e [] (.ok a : Except (Stop Flaw) α) where
  clear _ _ rule hrule := by cases hrule
  first _ h := by cases h

/-- A step that finds no fault checks no rule. -/
theorem Checks.reserve (count : Nat) : Checks root e [] (reserve count) where
  clear _ _ rule hrule := by cases hrule
  first flaw h := by
    unfold Schema.reserve at h
    split at h <;> cases h

/-- Steps one after the other check their rules one after the other. -/
theorem Checks.bind {rules others : List Rule} {step : Except (Stop Flaw) α} {next : α → Except (Stop Flaw) β}
    (h : Checks root e rules step) (hnext : ∀ a, step = .ok a → Checks root e others (next a)) :
    Checks root e (rules ++ others) (step >>= next) where
  clear b hb rule hrule := by
    obtain ⟨a, ha, hb⟩ := bind_eq_ok_iff.1 hb
    rcases List.mem_append.1 hrule with hrule | hrule
    · exact h.clear a ha rule hrule
    · exact (hnext a ha).clear b hb rule hrule
  first flaw hflaw := by
    cases hstep : step with
    | error own =>
      rw [hstep] at hflaw
      cases hflaw
      obtain ⟨before, rule, after, rfl, hbreaks, hbefore⟩ := h.first flaw hstep
      exact ⟨before, rule, after ++ others, by simp, hbreaks, hbefore⟩
    | ok a =>
      rw [hstep] at hflaw
      obtain ⟨before, rule, after, rfl, hbreaks, hbefore⟩ := (hnext a hstep).first flaw hflaw
      refine ⟨rules ++ before, rule, after, by simp, hbreaks, fun earlier hearlier => ?_⟩
      rcases List.mem_append.1 hearlier with hearlier | hearlier
      · exact h.clear a hstep earlier hearlier
      · exact hbefore earlier hearlier

/-- A step that fails exactly when the entry breaks the rule checks it. -/
theorem Checks.of_iff {rule : Rule} {step : Except (Stop Flaw) α}
    (h : ∀ flaw, step = .error (.fault flaw) ↔ Breaks root e rule flaw) : Checks root e [rule] step where
  clear a ha other hother flaw hbreaks := by
    obtain rfl := List.mem_singleton.1 hother
    cases ha.symm.trans ((h flaw).2 hbreaks)
  first flaw hflaw := ⟨[], rule, [], rfl, (h flaw).1 hflaw, by simp⟩

/-! ## The steps of reading an entry -/

theorem spanOf_eq {name : Text} {child : Element} (h : e.child? name = some child) : spanOf e name = child.span := by
  rw [spanOf, h]
  rfl

theorem checks_requiredText (name : Text) : Checks root e [.has name] (requiredText e name) := by
  refine Checks.of_iff fun flaw => ?_
  unfold requiredText optionalText
  constructor
  · intro h
    cases hchild : e.child? name with
    | none =>
      rw [hchild] at h
      cases h
      exact .has hchild
    | some child =>
      rw [hchild] at h
      cases h
  · rintro ⟨hchild⟩
    rw [hchild]
    rfl

theorem checks_readCount : Checks root e [.has Vocabulary.expectedProblems, .countIsSize] (readCount e) := by
  refine (checks_requiredText Vocabulary.expectedProblems).bind fun text htext => Checks.of_iff fun flaw => ?_
  obtain ⟨child, hchild, rfl⟩ := optionalText_eq_some_iff.1 (requiredText_eq_ok_iff.1 htext)
  have hdeclares : ∀ count, Declares e count ↔ Numeral.readSize (textOf child) = .ok count := by
    intro count
    rw [Numeral.readSize_eq_ok_iff, Declares, requiredText_eq_ok_iff.1 htext]
    simp
  rw [spanOf_eq hchild]
  constructor
  · intro h
    cases hsize : Numeral.readSize (textOf child) with
    | ok count =>
      rw [hsize] at h
      cases h
    | error own =>
      rw [hsize] at h
      cases h
      refine .countIsSize hchild fun count hcount => ?_
      cases hsize.symm.trans ((hdeclares count).1 hcount)
  · intro h
    cases h with
    | countIsSize hown hnone =>
      cases hchild.symm.trans hown
      cases hsize : Numeral.readSize (textOf child) with
      | ok count => exact absurd ((hdeclares count).2 hsize) (hnone count)
      | error own => rfl

theorem readLine_eq_error_iff {item : Text} {flaw : Flaw} :
    readLine e item = .error (.fault flaw) ↔
      (∀ line, ¬ IsLineItem item line) ∧ flaw = ⟨spanOf e Vocabulary.expectedLines, .invalidLine (Text.trim item)⟩ := by
  cases hread : readLine e item with
  | ok line =>
    simp only [reduceCtorEq, false_iff, not_and]
    intro hnone
    exact absurd (readLine_eq_ok_iff.1 hread) (hnone line)
  | error own =>
    have hnone : ∀ line, ¬ IsLineItem item line := by
      intro line hline
      cases hread.symm.trans (readLine_eq_ok_iff.2 hline)
    unfold readLine at hread
    split at hread
    · cases hread
    · cases hread
      simp [hnone, eq_comm]

theorem readLines_eq_error_iff {flaw : Flaw} :
    readLines e = .error (.fault flaw) ↔
      ∃ child, e.child? Vocabulary.expectedLines = some child ∧ textOf child ≠ [] ∧
        ((textOf child).splitOn ',').mapM (readLine e) = .error (.fault flaw) := by
  unfold readLines optionalText
  cases e.child? Vocabulary.expectedLines with
  | none => simp
  | some child =>
    by_cases hempty : textOf child = []
    · simp [hempty]
    · simp only [Option.map_some, List.isEmpty_iff, hempty, if_false, Option.some.injEq, exists_eq_left', ne_eq,
        not_false_eq_true, true_and]
      cases ((textOf child).splitOn ',').mapM (readLine e) <;> simp [bind, Except.bind, pure, Except.pure]

theorem checks_readLines : Checks root e [.linesAreSizes] (readLines e) := by
  refine Checks.of_iff fun flaw => ?_
  simp only [readLines_eq_error_iff, mapM_eq_error_iff, readLine_eq_ok_iff, readLine_eq_error_iff]
  constructor
  · rintro ⟨child, hchild, hne, before, item, after, hsplit, hbefore, hitem, rfl⟩
    rw [spanOf_eq hchild]
    exact .linesAreSizes hchild hne hsplit hbefore hitem
  · intro h
    cases h with
    | linesAreSizes hchild hne hsplit hbefore hitem =>
      exact ⟨_, hchild, hne, _, _, _, hsplit, hbefore, hitem, by rw [spanOf_eq hchild]⟩

/-- No fragment has the id exactly when none is found by it. -/
theorem fragment?_eq_none_iff {id : Text} :
    fragment? root id = none ↔
      ∀ fragment ∈ root.childrenNamed Vocabulary.codeFragment, fragment.attribute? Vocabulary.id ≠ some id := by
  simp [fragment?]

theorem checks_readCode :
    Checks root e [.hasCode, .referenceHasId, .referenceIsKnown] (readCode (fragment? root) e) := by
  constructor
  · -- whichever of the rules is broken, reading fails with its flaw
    intro raw hraw rule hrule flaw hbreaks
    cases hbreaks with
    | hasCode h hr => simp [readCode, h, hr] at hraw
    | referenceHasId h hr hi => simp [readCode, h, hr, hi] at hraw
    | referenceIsKnown h hr hi hf => simp [readCode, h, hr, hi, fragment?_eq_none_iff.2 hf] at hraw
    | _ => simp at hrule
  · intro flaw h
    unfold readCode at h
    split at h
    · cases h
    · next hcode =>
      split at h
      · next hreference =>
        cases h
        exact ⟨[], .hasCode, _, rfl, .hasCode hcode hreference, by simp⟩
      · next reference hreference =>
        have hhas : ∀ other, ¬ Breaks root e .hasCode other := by
          intro other hbreaks
          cases hbreaks with
          | hasCode _ hnone => cases hreference.symm.trans hnone
        split at h
        · next hid =>
          cases h
          exact ⟨[.hasCode], .referenceHasId, _, rfl, .referenceHasId hcode hreference hid, by simpa using hhas⟩
        · next id hid =>
          split at h
          · cases h
          · next hfragment =>
            cases h
            refine ⟨[.hasCode, .referenceHasId], .referenceIsKnown, [], rfl,
              .referenceIsKnown hcode hreference hid (fragment?_eq_none_iff.1 hfragment), ?_⟩
            have hhasId : ∀ other, ¬ Breaks root e .referenceHasId other := by
              intro other hbreaks
              cases hbreaks with
              | referenceHasId _ hown hnone =>
                cases hreference.symm.trans hown
                cases hid.symm.trans hnone
            simpa using ⟨hhas, hhasId⟩

theorem checkLength_eq_error_iff {listing : Listing} {count : Nat} {items : Option (List α)} {flaw : Flaw} :
    checkLength e listing count items = .error (.fault flaw) ↔
      ∃ list, items = some list ∧ list.length ≠ count ∧
        flaw = ⟨spanOf e listing.element, .countMismatch listing count list.length⟩ := by
  cases items with
  | none => simp [checkLength]
  | some list =>
    simp only [checkLength, Option.some.injEq, exists_eq_left', @eq_comm _ flaw]
    split <;> simp [*]

theorem checks_messages {count : Nat} (hn : Declares e count) :
    Checks root e [.messagesMatch] (checkLength e .messages count (readMessages e)) := by
  refine Checks.of_iff fun flaw => ?_
  rw [checkLength_eq_error_iff]
  constructor
  · rintro ⟨list, hlist, hlength, rfl⟩
    obtain ⟨child, hchild, rfl⟩ := Option.map_eq_some_iff.1 hlist
    rw [List.length_map] at hlength ⊢
    rw [show spanOf e Listing.messages.element = child.span from spanOf_eq hchild]
    exact .messagesMatch hchild hn hlength
  · intro h
    cases h with
    | messagesMatch hchild hown hlength =>
      cases hn.unique hown
      refine ⟨_, Option.map_eq_some_iff.2 ⟨_, hchild, rfl⟩, by rwa [List.length_map], ?_⟩
      rw [List.length_map, show spanOf e Listing.messages.element = _ from spanOf_eq hchild]

/-- The lines of an entry are those of the first list of lines. -/
theorem eq_some_iff_of_readLines {listed : Option (List Nat)} (h : readLines e = .ok listed) {lines : List Nat} :
    listed = some lines ↔ ∃ child, e.child? Vocabulary.expectedLines = some child ∧ Lists (textOf child) lines := by
  constructor
  · rintro rfl
    obtain ⟨-, hnone⟩ | ⟨text, own, htext, hlists, heq⟩ := readLines_eq_ok_iff.1 h
    · cases hnone
    · cases heq
      obtain ⟨child, hchild, rfl⟩ := optionalText_eq_some_iff.1 htext
      exact ⟨child, hchild, hlists⟩
  · rintro ⟨child, hchild, hlists⟩
    have htext := optionalText_eq_some_iff.2 ⟨child, hchild, rfl⟩
    exact Except.ok.inj (h.symm.trans (readLines_eq_ok_iff.2 (.inr ⟨_, _, htext, hlists, rfl⟩)))

theorem checks_lines {listed : Option (List Nat)} {count : Nat} (hl : readLines e = .ok listed)
    (hn : Declares e count) : Checks root e [.linesMatch] (checkLength e .lines count listed) := by
  refine Checks.of_iff fun flaw => ?_
  simp only [checkLength_eq_error_iff, eq_some_iff_of_readLines hl]
  constructor
  · rintro ⟨lines, ⟨child, hchild, hlists⟩, hlength, rfl⟩
    rw [show spanOf e Listing.lines.element = child.span from spanOf_eq hchild]
    exact .linesMatch hchild hlists hn hlength
  · intro h
    cases h with
    | linesMatch hchild hlists hown hlength =>
      cases hn.unique hown
      refine ⟨_, ⟨_, hchild, hlists⟩, hlength, ?_⟩
      rw [show spanOf e Listing.lines.element = _ from spanOf_eq hchild]

theorem exists_locate_iff {source : Text} {line : Nat} (h : 1 ≤ line) :
    (∃ location, locate e source line = .ok location) ↔ line ≤ countLines source := by
  simp only [locate_eq_ok_iff]
  constructor
  · rintro ⟨_, region, hregion, -⟩
    exact (le_countLines_of_regionOfLine hregion).2
  · intro hle
    obtain ⟨region, hregion⟩ := exists_regionOfLine h hle
    exact ⟨_, region, hregion, rfl⟩

theorem locate_eq_error_iff {source : Text} {line : Nat} {flaw : Flaw} (h : 1 ≤ line) :
    locate e source line = .error (.fault flaw) ↔
      countLines source < line ∧
        flaw = ⟨spanOf e Vocabulary.expectedLines, .lineOutside line (countLines source)⟩ := by
  rw [← Nat.not_le, ← exists_locate_iff (e := e) h]
  unfold locate
  cases regionOfLine source line <;> simp [eq_comm]

/-- Of listed lines the first one outside the code is reported. -/
theorem mapM_locate_eq_error_iff {source : Text} {lines : List Nat} {flaw : Flaw} (h : ∀ x ∈ lines, 1 ≤ x) :
    lines.mapM (locate e source) = .error (.fault flaw) ↔
      ∃ before line after, lines = before ++ line :: after ∧ (∀ x ∈ before, x ≤ countLines source) ∧
        countLines source < line ∧
        flaw = ⟨spanOf e Vocabulary.expectedLines, .lineOutside line (countLines source)⟩ := by
  rw [mapM_eq_error_iff]
  refine exists_congr fun before => exists_congr fun line => exists_congr fun after => and_congr_right ?_
  rintro rfl
  have hbefore : ∀ x ∈ before, (∃ location, locate e source x = .ok location) ↔ x ≤ countLines source :=
    fun x hx => exists_locate_iff (h x (List.mem_append_left _ hx))
  exact and_congr (forall₂_congr hbefore) (locate_eq_error_iff (h line (by simp)))

theorem checks_locations {listed : Option (List Nat)} {count : Nat} {raw : Text} (hl : readLines e = .ok listed)
    (hr : CodeOf root e raw) :
    Checks root e [.linesExist] (readLocations e (Snippet.extract raw) count listed) := by
  refine (Checks.reserve count).bind fun _ _ => Checks.of_iff fun flaw => ?_
  cases hlisted : listed with
  | none =>
    refine iff_of_false nofun fun h => ?_
    cases h with
    | linesExist hchild hlists => cases hlisted.symm.trans ((eq_some_iff_of_readLines hl).2 ⟨_, hchild, hlists⟩)
  | some lines =>
    obtain ⟨child, hchild, hlists⟩ := (eq_some_iff_of_readLines hl).1 hlisted
    have hpos : ∀ x ∈ lines, 1 ≤ x := fun x hx => (bounds_of_lists hlists x hx).1
    simp only [mapM_locate_eq_error_iff hpos, spanOf_eq hchild]
    constructor
    · rintro ⟨before, line, after, rfl, hbefore, hout, rfl⟩
      exact .linesExist hchild hlists hr hbefore hout
    · intro h
      cases h with
      | linesExist hown hfound hraw hbefore hout =>
        cases hr.unique hraw
        cases hchild.symm.trans hown
        cases hlisted.symm.trans ((eq_some_iff_of_readLines hl).2 ⟨_, hown, hfound⟩)
        exact ⟨_, _, _, rfl, hbefore, hout, rfl⟩

theorem readProperty_eq_error_iff {property : Element} {flaw : Flaw} :
    readProperty property = .error (.fault flaw) ↔
      property.attribute? Vocabulary.name = none ∧ flaw = ⟨property.span, .unnamedProperty⟩ := by
  unfold readProperty
  cases property.attribute? Vocabulary.name <;> simp [eq_comm]

theorem checks_properties :
    Checks root e [.propertiesHaveNames] ((e.childrenNamed Vocabulary.ruleProperty).mapM readProperty) := by
  have hnamed : ∀ property : Element,
      (∃ pair, readProperty property = .ok pair) ↔ ∃ name, property.attribute? Vocabulary.name = some name := by
    intro property
    simp [readProperty_eq_ok_iff, IsProperty]
  refine Checks.of_iff fun flaw => ?_
  simp only [mapM_eq_error_iff, hnamed, readProperty_eq_error_iff]
  constructor
  · rintro ⟨before, property, after, hsplit, hbefore, hname, rfl⟩
    exact .propertiesHaveNames hsplit hbefore hname
  · intro h
    cases h with
    | propertiesHaveNames hsplit hbefore hname => exact ⟨_, _, _, hsplit, hbefore, hname, rfl⟩

theorem checks_readDescribed (description : Text) :
    Checks root e [.has Vocabulary.expectedProblems, .countIsSize, .linesAreSizes, .hasCode, .referenceHasId,
      .referenceIsKnown, .messagesMatch, .linesMatch, .linesExist]
      (readDescribed (fragment? root) e description) := by
  refine checks_readCount.bind fun count hcount => ?_
  refine checks_readLines.bind fun listed hlisted => ?_
  refine checks_readCode.bind fun raw hraw => ?_
  refine (checks_messages (readCount_eq_ok_iff.1 hcount)).bind fun _ _ => ?_
  refine (checks_lines hlisted (readCount_eq_ok_iff.1 hcount)).bind fun _ _ => ?_
  exact (checks_locations hlisted (readCode_eq_ok_iff.1 hraw)).bind fun _ _ => .ok _

/-- An entry is held against all rules, and what is reported is the first one it breaks. -/
theorem checks_readCase : Checks root e Rule.order (readCase (fragment? root) e) := by
  have hbody : Checks root e (.has Vocabulary.description :: _) (readBody (fragment? root) e) :=
    (checks_requiredText Vocabulary.description).bind fun description _ => checks_readDescribed description
  exact hbody.bind fun body _ => checks_properties.bind fun _ _ => .ok _

theorem exists_breaksFirst {flaw : Flaw} (h : readCase (fragment? root) e = .error (.fault flaw)) :
    BreaksFirst root e Rule.order flaw :=
  checks_readCase.first flaw h

/-! ## Reading with a note -/

theorem noting_bind (step : Except (Stop Flaw) α) (next : α → Except (Stop Flaw) β) :
    noting (step >>= next) = noting step >>= fun a => noting (next a) := by
  cases step <;> rfl

/-- With a note an entry is read as without, and a flaw is reported with the description that the entry has. -/
theorem run_noteCase (fragment? : Text → Option Element) (e : Element) :
    (noteCase fragment? e).run none =
      (noting (readCase fragment? e)).run (optionalText e Vocabulary.description) := by
  unfold noteCase readCase readBody
  simp only [noting_bind]
  unfold requiredText
  cases optionalText e Vocabulary.description <;> rfl

theorem noteEntry_eq (fragment? : Text → Option Element) (e : Element) (index : Nat) :
    noteEntry fragment? e index = readEntry fragment? e index := by
  unfold noteEntry readEntry
  rw [run_noteCase]
  cases readCase fragment? e with
  | ok read => rfl
  | error stop => cases stop <;> rfl

end Schema

/-- With notes a suite is read as without. -/
theorem Suite.ofDocumentNoting_eq (d : Document) : ofDocumentNoting d = ofDocument d := by
  unfold ofDocumentNoting ofDocument Schema.readRoot
  simp only [Schema.noteEntry_eq]
  split
  · cases (d.root.childrenNamed Vocabulary.testCode).zipIdx.mapM
      fun p => Schema.readEntry (Schema.fragment? d.root) p.1 p.2 <;> rfl
  · rfl

/-! ## The entry to blame -/

namespace Schema

/-- Two roots of one name with the same fragments and the same entries up to the one at `index`. -/
structure AgreeUpTo (index : Nat) (root other : Element) : Prop where
  name : root.name = other.name
  fragments : root.childrenNamed Vocabulary.codeFragment = other.childrenNamed Vocabulary.codeFragment
  entries : (root.childrenNamed Vocabulary.testCode).take (index + 1) =
    (other.childrenNamed Vocabulary.testCode).take (index + 1)

theorem AgreeUpTo.fragment?_eq {index : Nat} {other : Element} (h : AgreeUpTo index root other) :
    fragment? root = fragment? other := by
  funext id
  rw [fragment?, fragment?, h.fragments]

theorem AgreeUpTo.exists_split {other x : Element} {before after : List Element}
    (h : AgreeUpTo before.length root other)
    (hsplit : root.childrenNamed Vocabulary.testCode = before ++ x :: after) :
    ∃ others, other.childrenNamed Vocabulary.testCode = before ++ x :: others := by
  have htake : (other.childrenNamed Vocabulary.testCode).take (before.length + 1) = before ++ [x] := by
    rw [← h.entries, hsplit, List.take_length_add_append]
    rfl
  have hall := List.take_append_drop (before.length + 1) (other.childrenNamed Vocabulary.testCode)
  rw [htake, List.append_assoc] at hall
  exact ⟨_, hall.symm⟩

end Schema

/-- The error blames an entry of the document: the first one that breaks the schema, for the first rule it breaks,
with its description if it has one. The entries after it do not matter. -/
structure Blames (d : Document) (error : Error) (index : Nat) (e : Element) (flaw : Flaw) : Prop where
  entry : (d.root.childrenNamed Vocabulary.testCode)[index]? = some e
  first : IsLeast {i | ∃ x, (d.root.childrenNamed Vocabulary.testCode)[i]? = some x ∧
    ¬ ∃ count, Schema.Keeps d.root x count} index
  broken : Schema.BreaksFirst d.root e Schema.Rule.order flaw
  report : error = .schema index ((e.child? Vocabulary.description).map Schema.textOf) flaw.span flaw.fault
  noted : Suite.ofDocumentNoting d = .error (.fault error)
  alike : ∀ other : Document, Schema.AgreeUpTo index d.root other.root → Suite.ofDocument other = .error (.fault error)

/-- A document of a fixture that is refused is blamed on one of its entries. -/
theorem Suite.exists_blames {d : Document} {error : Error} (hroot : d.root.name = Vocabulary.testData)
    (h : ofDocument d = .error (.fault error)) : ∃ index e flaw, Blames d error index e flaw := by
  obtain ⟨before, e, after, flaw, hsplit, hbefore, hflaw, hreport⟩ :=
    (Schema.readRoot_eq_fault_iff hroot).1 (ofDocument_eq_error_iff.1 h)
  have hentry : (d.root.childrenNamed Vocabulary.testCode)[before.length]? = some e := by simp [hsplit]
  refine ⟨before.length, e, flaw, hentry, ⟨⟨e, hentry, ?_⟩, ?_⟩, Schema.exists_breaksFirst hflaw, hreport,
    by rw [ofDocumentNoting_eq, h], ?_⟩
  · rintro ⟨count, hkeeps⟩
    cases hkeeps.eq_overflow hflaw
  · rintro i ⟨x, hx, hbroken⟩
    by_contra hlt
    rw [hsplit, List.getElem?_append_left (Nat.lt_of_not_le hlt)] at hx
    obtain ⟨c, hread⟩ := hbefore x (List.mem_of_getElem? hx)
    obtain ⟨count, hkeeps, -⟩ := Schema.exists_keeps hread
    exact hbroken ⟨count, hkeeps⟩
  · intro other hagree
    obtain ⟨others, hothers⟩ := hagree.exists_split hsplit
    have hreads : ∀ x ∈ before, ∃ c, Schema.ReadsAs other.root x c := by
      unfold Schema.ReadsAs
      rw [← hagree.fragment?_eq]
      exact hbefore
    rw [hagree.fragment?_eq] at hflaw
    rw [ofDocument_eq_error_iff, Schema.readRoot_eq_fault_iff (hagree.name.symm.trans hroot)]
    exact ⟨before, e, others, flaw, hothers, hreads, hflaw, hreport⟩

/-- A fixture of three entries. The second one lists a line past its code, the third one is empty. -/
def Suite.faultyFixture : Text :=
  ["<test-data>", "<test-code>", "<description>", "a", "</description>",
    "<expected-problems>", "0", "</expected-problems>", "<code>", "x", "</code>", "</test-code>",
    "<test-code>", "<expected-problems>", "1", "</expected-problems>", "<description>", " d ", "</description>",
    "<expected-linenumbers>", " 2 ", "</expected-linenumbers>", "<code>", "x", "</code>", "</test-code>",
    "<test-code/>", "</test-data>"].flatMap String.toList

/-- What is reported on it. -/
def Suite.faultyLine : Error := .schema 1 (some ['d']) ⟨197, 245⟩ (.lineOutside 2 1)

theorem Suite.exists_blames_line :
    ∃ d, Document.parse faultyFixture = .ok d ∧ d.root.name = Vocabulary.testData ∧
      Suite.ofDocument d = .error (.fault faultyLine) ∧ ∃ index e flaw, Blames d faultyLine index e flaw := by
  have hparse : Suite.parse faultyFixture = .error (.fault faultyLine) := by decide +kernel
  obtain ⟨d, hd, hread⟩ := exists_document_of_parse hparse nofun
  have hroot : d.root.name = Vocabulary.testData := by
    by_contra hne
    rw [ofDocument_eq_error_iff, Schema.readRoot, if_neg hne] at hread
    cases hread
  exact ⟨d, hd, hroot, hread, Suite.exists_blames hroot hread⟩

end LintFixture.Fixture
