import LintFixture.Proofs.Fixture.Schema

/-!
# The parts of an entry

What each part of an entry has to say to be read: the declared number of
violations (`readCount_eq_ok_iff`), the listed lines (`readLines_eq_ok_iff`), the
code, which may stand in a fragment of the root (`readCode_eq_ok_iff`), the
locations (`readLocations_eq_ok_iff`) and the properties (`readProperty_eq_ok_iff`).
All of them together make up the case (`readsAs_iff`).
-/

namespace LintFixture.Fixture.Schema

open Grid Markup

variable {root e : Element} {count : Nat}

/-! ## Texts and numbers -/

theorem requiredText_eq_ok_iff {name text : Text} :
    requiredText e name = .ok text ↔ optionalText e name = some text := by
  unfold requiredText
  cases optionalText e name <;> simp

theorem optionalText_eq_some_iff {name text : Text} :
    optionalText e name = some text ↔ ∃ child, e.child? name = some child ∧ textOf child = text :=
  Option.map_eq_some_iff

/-- The entry declares how many violations there are. -/
def Declares (e : Element) (count : Nat) : Prop :=
  ∃ text, optionalText e Vocabulary.expectedProblems = some text ∧
    Numeral.Denotes text count ∧ count ≤ Numeral.maxSize

theorem readCount_eq_ok_iff : readCount e = .ok count ↔ Declares e count := by
  unfold readCount Declares
  simp only [bind_eq_ok_iff, requiredText_eq_ok_iff, ← Numeral.readSize_eq_ok_iff]
  refine exists_congr fun text => and_congr_right fun _ => ?_
  cases Numeral.readSize text <;> simp [pure, Except.pure, throw, throwThe, MonadExceptOf.throw]

/-- An entry declares one number of violations. -/
theorem Declares.unique {other : Nat} (h : Declares e count) (h' : Declares e other) : count = other :=
  Except.ok.inj ((readCount_eq_ok_iff.2 h).symm.trans (readCount_eq_ok_iff.2 h'))

/-- An item of a list of lines: a number from 1 on, with blanks around it. -/
def IsLineItem (item : Text) (line : Nat) : Prop :=
  0 < line ∧ Numeral.Denotes (Text.trim item) line ∧ line ≤ Numeral.maxSize

theorem readLine_eq_ok_iff {item : Text} {line : Nat} : readLine e item = .ok line ↔ IsLineItem item line := by
  unfold readLine IsLineItem
  rw [← Numeral.readSize_eq_ok_iff]
  cases h : Numeral.readSize (Text.trim item) with
  | error e => simp
  | ok n => cases n <;> simp <;> omega

/-- The text lists the lines: an empty one none, any other one an item for each between its commas. -/
def Lists (text : Text) (lines : List Nat) : Prop :=
  (text = [] ∧ lines = []) ∨ (text ≠ [] ∧ List.Forall₂ IsLineItem (text.splitOn ',') lines)

theorem bounds_of_lists {text : Text} {lines : List Nat} (h : Lists text lines) :
    ∀ line ∈ lines, 1 ≤ line ∧ line ≤ Numeral.maxSize := by
  intro line hline
  rcases h with ⟨-, rfl⟩ | ⟨-, hall⟩
  · cases hline
  · obtain ⟨item, -, hpos, -, hle⟩ := exists_of_mem_right hall hline
    exact ⟨hpos, hle⟩

theorem readLines_eq_ok_iff {listed : Option (List Nat)} :
    readLines e = .ok listed ↔
      (optionalText e Vocabulary.expectedLines = none ∧ listed = none) ∨
      ∃ text lines, optionalText e Vocabulary.expectedLines = some text ∧ Lists text lines ∧
        listed = some lines := by
  unfold readLines Lists
  cases optionalText e Vocabulary.expectedLines with
  | none => simp [eq_comm]
  | some text =>
    by_cases ht : text = []
    · simp [ht, eq_comm]
    · have hsome : ∀ lines, some lines = listed ↔ listed = some lines := fun lines => eq_comm
      simp [ht, bind_eq_ok_iff, mapM_eq_ok_iff, readLine_eq_ok_iff, pure, Except.pure, hsome]

/-! ## The code -/

/-- The item is the last one of the list with the property. -/
def IsLast {α : Type} (p : α → Prop) (items : List α) (item : α) : Prop :=
  p item ∧ ∃ before after, items = before ++ item :: after ∧ ∀ other ∈ after, ¬ p other

theorem find?_reverse_eq_some_iff {α : Type} {p : α → Bool} {items : List α} {item : α} :
    items.reverse.find? p = some item ↔ IsLast (p · = true) items item := by
  rw [List.find?_eq_some_iff_append]
  refine and_congr_right fun _ => ⟨?_, ?_⟩
  · rintro ⟨after, before, hsplit, hlast⟩
    refine ⟨before.reverse, after.reverse, by simpa using congrArg List.reverse hsplit, ?_⟩
    intro other hother
    simpa using hlast other (List.mem_reverse.1 hother)
  · rintro ⟨before, after, rfl, hlast⟩
    refine ⟨after.reverse, before.reverse, by simp, ?_⟩
    intro other hother
    simpa using hlast other (List.mem_reverse.1 hother)

/-- The code of the entry: that of its own element, or else that of the last fragment of the id it refers to. -/
inductive CodeOf (root e : Element) : Text → Prop
  | inline {code : Element} (h : e.child? Vocabulary.code = some code) : CodeOf root e code.innerText
  | fragment {reference fragment : Element} {id : Text} (hn : e.child? Vocabulary.code = none)
    (hr : e.child? Vocabulary.codeRef = some reference) (hi : reference.attribute? Vocabulary.id = some id)
    (hf : IsLast (·.attribute? Vocabulary.id = some id) (root.childrenNamed Vocabulary.codeFragment) fragment) :
    CodeOf root e fragment.innerText

/-- The entry has code: its own, or a reference to the id of some fragment. -/
def HasCode (root e : Element) : Prop :=
  (∃ code, e.child? Vocabulary.code = some code) ∨
  ∃ reference id fragment, e.child? Vocabulary.codeRef = some reference ∧
    reference.attribute? Vocabulary.id = some id ∧
    fragment ∈ root.childrenNamed Vocabulary.codeFragment ∧ fragment.attribute? Vocabulary.id = some id

/-- Of several fragments with an id the last counts. -/
theorem fragment?_eq_some_iff {id : Text} {fragment : Element} :
    fragment? root id = some fragment ↔
      IsLast (·.attribute? Vocabulary.id = some id) (root.childrenNamed Vocabulary.codeFragment) fragment := by
  simp only [fragment?, find?_reverse_eq_some_iff, beq_iff_eq]

/-- Where some fragment has an id, one is the last of that id. -/
theorem exists_isLast {id : Text} {fragment : Element} (hmem : fragment ∈ root.childrenNamed Vocabulary.codeFragment)
    (hid : fragment.attribute? Vocabulary.id = some id) :
    ∃ last, IsLast (·.attribute? Vocabulary.id = some id) (root.childrenNamed Vocabulary.codeFragment) last := by
  simp only [← fragment?_eq_some_iff]
  rw [← Option.isSome_iff_exists, fragment?, List.find?_isSome]
  exact ⟨fragment, List.mem_reverse.2 hmem, beq_iff_eq.2 hid⟩

theorem readCode_eq_ok_iff {raw : Text} : readCode (fragment? root) e = .ok raw ↔ CodeOf root e raw := by
  unfold readCode
  constructor
  · intro h
    split at h
    · next code hc =>
      obtain rfl := Except.ok.inj h
      exact .inline hc
    · next hn =>
      split at h
      · cases h
      · next reference hr =>
        split at h
        · cases h
        · next id hi =>
          split at h
          · next fragment hf =>
            obtain rfl := Except.ok.inj h
            exact .fragment hn hr hi (fragment?_eq_some_iff.1 hf)
          · cases h
  · rintro (hc | ⟨hn, hr, hi, hf⟩)
    · rw [hc]
    · simp only [hn, hr, hi, fragment?_eq_some_iff.2 hf]

theorem exists_codeOf_iff : (∃ raw, CodeOf root e raw) ↔ HasCode root e := by
  constructor
  · rintro ⟨_, hc | ⟨-, hr, hi, hid, before, after, hsplit, -⟩⟩
    · exact .inl ⟨_, hc⟩
    · exact .inr ⟨_, _, _, hr, hi, hsplit ▸ List.mem_append_right _ List.mem_cons_self, hid⟩
  · intro h
    cases hc : e.child? Vocabulary.code with
    | some code => exact ⟨_, .inline hc⟩
    | none =>
      obtain ⟨code, hcode⟩ | ⟨reference, id, fragment, hr, hi, hmem, hid⟩ := h
      · cases hc.symm.trans hcode
      · obtain ⟨last, hlast⟩ := exists_isLast hmem hid
        exact ⟨_, .fragment hc hr hi hlast⟩

/-- There is one code only. -/
theorem CodeOf.unique {raw raw' : Text} (h : CodeOf root e raw) (h' : CodeOf root e raw') : raw = raw' :=
  Except.ok.inj ((readCode_eq_ok_iff.2 h).symm.trans (readCode_eq_ok_iff.2 h'))

/-! ## Lists of the declared length -/

theorem checkLength_eq_ok_iff {α : Type} {listing : Listing} {items : Option (List α)} :
    checkLength e listing count items = .ok () ↔ ∀ list, items = some list → list.length = count := by
  cases items with
  | none => simp [checkLength]
  | some list =>
    simp only [checkLength, Option.some.injEq, forall_eq']
    split <;> simp [*]

/-- The violation is on the line, anywhere in its region. -/
def OnLine (source : Text) (line : Nat) (location : Location) : Prop :=
  ∃ region, regionOfLine source line = .ok region ∧ location = .line line region

theorem locate_eq_ok_iff {source : Text} {line : Nat} {location : Location} :
    locate e source line = .ok location ↔ OnLine source line location := by
  unfold locate OnLine
  cases regionOfLine source line <;> simp [eq_comm]

theorem reserve_eq_ok_iff {u : Unit} : reserve count = .ok u ↔ count ≤ Expectation.capacity := by
  unfold reserve
  split <;> simp [*]

/-- Violations for which there is room are placed nowhere, or each on its line. -/
theorem readLocations_eq_ok_iff {source : Text} {listed : Option (List Nat)} {locations : List Location} :
    readLocations e source count listed = .ok locations ↔
      count ≤ Expectation.capacity ∧
      ((listed = none ∧ locations = List.replicate count .anywhere) ∨
        ∃ lines, listed = some lines ∧ List.Forall₂ (OnLine source) lines locations) := by
  unfold readLocations
  simp only [bind_eq_ok_iff, reserve_eq_ok_iff, exists_and_left, exists_const]
  cases listed with
  | none => simp [pure, Except.pure, eq_comm]
  | some lines => simp [mapM_eq_ok_iff, locate_eq_ok_iff]

/-- Each violation takes its message from the one list and its location from the other. -/
theorem mem_of_mem_zipWith {messages : List (Option Text)} {locations : List Location} {x : Expectation}
    (h : x ∈ List.zipWith Expectation.mk messages locations) : x.message ∈ messages ∧ x.location ∈ locations := by
  rw [← List.map_uncurry_zip_eq_zipWith, List.mem_map] at h
  obtain ⟨⟨message, location⟩, hp, rfl⟩ := h
  exact List.of_mem_zip hp

theorem length_of_readLocations {source : Text} {lines : Option (List Nat)}
    {locations : List Location} (hc : ∀ list, lines = some list → list.length = count)
    (ho : readLocations e source count lines = .ok locations) : locations.length = count := by
  rcases (readLocations_eq_ok_iff.1 ho).2 with ⟨-, rfl⟩ | ⟨listed, rfl, hlisted⟩
  · exact List.length_replicate
  · rw [← hlisted.length_eq, hc listed rfl]

/-! ## Properties -/

/-- The element names a property and gives its value. -/
def IsProperty (property : Element) (pair : Text × Text) : Prop :=
  property.attribute? Vocabulary.name = some pair.1 ∧ pair.2 = textOf property

theorem readProperty_eq_ok_iff {property : Element} {pair : Text × Text} :
    readProperty property = .ok pair ↔ IsProperty property pair := by
  unfold readProperty IsProperty
  cases property.attribute? Vocabulary.name <;> simp [Prod.ext_iff, eq_comm]

/-! ## The whole entry -/

/-- An entry is read exactly when each part says what it has to. -/
theorem readsAs_iff {c : Case} :
    ReadsAs root e c ↔
      ∃ description count listed raw locations pairs,
        optionalText e Vocabulary.description = some description ∧ Declares e count ∧
        readLines e = .ok listed ∧ CodeOf root e raw ∧
        (∀ messages, readMessages e = some messages → messages.length = count) ∧
        (∀ lines, listed = some lines → lines.length = count) ∧
        readLocations e (Snippet.extract raw) count listed = .ok locations ∧
        List.Forall₂ IsProperty (e.childrenNamed Vocabulary.ruleProperty) pairs ∧
        c = assemble e description count (Snippet.extract raw) locations pairs := by
  simp only [ReadsAs, readCase_eq_ok_iff, requiredText_eq_ok_iff, readCount_eq_ok_iff, readCode_eq_ok_iff,
    checkLength_eq_ok_iff, mapM_eq_ok_iff, readProperty_eq_ok_iff]
  constructor
  · rintro ⟨pairs, description, count, listed, raw, locations, hall⟩
    exact ⟨description, count, listed, raw, locations, pairs, hall⟩
  · rintro ⟨description, count, listed, raw, locations, pairs, hall⟩
    exact ⟨pairs, description, count, listed, raw, locations, hall⟩

end LintFixture.Fixture.Schema
