import LintFixture.Proofs.Fixture.Regular
import LintFixture.Proofs.Fixture.Writer

/-!
# Reading a written entry

The parts of a written entry are read as they were, but for the blanks around
texts. A regular case comes back with its code extracted from its block, and with
every located violation on its line (`exists_readsAs`).
-/

namespace LintFixture.Fixture

open Grid Markup Schema

/-- The location that is read back for one in `source`, when the code has become `after`. -/
def Location.ReadsBackAs (source after : Text) (location read : Location) : Prop :=
  (location = .anywhere ∧ read = .anywhere) ∨
    ∃ line region, location.lineIn source = .ok (some line) ∧ regionOfLine after line = .ok region ∧
      read = .line line region

/-- The case that is read back: its code is extracted from its block, and nothing else is changed but
where its violations are. -/
def Case.ReadsBackAs (c read : Case) : Prop :=
  ∃ expectations, List.Forall₂ (fun x y => y.message = x.message ∧
      x.location.ReadsBackAs c.source (Snippet.extract (Snippet.block c.source)) y.location)
        c.expectations expectations ∧
    read = { c with source := Snippet.extract (Snippet.block c.source), expectations }

/-! ## Lines -/

theorem Case.countLines_extract_block {c : Case} (h : c.Regular) :
    countLines (Snippet.extract (Snippet.block c.source)) = countLines c.source := by
  rcases h.source with hs | hs
  · rw [hs, Snippet.extract_block_nil]
  · exact congrArg (· + 1) (Snippet.count_extract_block hs)

theorem Location.isPlaced_of_standsIn {source : Text} {location : Location} (h : location.StandsIn source) :
    location.isPlaced = true := by
  cases location with
  | anywhere => cases h
  | line number region => rfl
  | exact region => rfl

namespace Case

variable {c : Case} {lines : Option (List Nat)} {e : Element}

/-- A location in the code is written as one of the lines of the code. -/
theorem exists_lineIn {source : Text} {location : Location} (h : location.StandsIn source) :
    ∃ line, location.lineIn source = .ok (some line) ∧ 1 ≤ line ∧ line ≤ countLines source := by
  cases location with
  | anywhere => cases h
  | line number region => exact ⟨number, rfl, le_countLines_of_regionOfLine h⟩
  | exact region =>
    obtain ⟨p, hp⟩ := exists_positionFrom .origin h
    have hat : positionAt source region.start = .ok p := by rw [positionAt, hp]
    refine ⟨p.line, ?_, line_positionAt hat⟩
    rw [Location.lineIn, hat]
    rfl

/-- Every location in the code is listed by its line, and found on that line again. -/
theorem exists_placed (hr : c.Regular) (hs : c.Sized)
    (h : ∀ x ∈ c.expectations, x.location.StandsIn c.source) :
    ∃ placed : List (Nat × Region), List.Forall₂ (fun x p =>
      x.location.lineIn c.source = .ok (some p.1) ∧ 1 ≤ p.1 ∧ p.1 ≤ Numeral.maxSize ∧
        regionOfLine (Snippet.extract (Snippet.block c.source)) p.1 = .ok p.2) c.expectations placed := by
  apply exists_forall₂
  intro x hx
  obtain ⟨line, hline, hpos, hle⟩ := exists_lineIn (h x hx)
  -- the code that comes back has as many lines
  rw [← countLines_extract_block hr] at hle
  obtain ⟨region, hregion⟩ := exists_regionOfLine hpos hle
  exact ⟨(line, region), hline, hpos, hs.lines x hx line hline, hregion⟩

theorem listedLines_of_placed {placed : List (Nat × Region)} (hne : c.expectations ≠ [])
    (hin : ∀ x ∈ c.expectations, x.location.StandsIn c.source)
    (h : List.Forall₂ (fun x p => x.location.lineIn c.source = .ok (some p.1)) c.expectations placed) :
    c.listedLines = .ok (some (placed.map Prod.fst)) := by
  have hall : c.expectations.all (·.location.isPlaced) = true := by
    rw [List.all_eq_true]
    intro x hx
    exact Location.isPlaced_of_standsIn (hin x hx)
  have hmap : c.expectations.mapM (·.location.lineIn c.source) = .ok (placed.map fun p => some p.1) :=
    mapM_eq_ok_iff.2 (List.forall₂_map_right_iff.2 h)
  unfold listedLines
  rw [if_neg (by simp [hne, hall]), hmap]
  simp [bind, Except.bind, pure, Except.pure, List.filterMap_map]

theorem listedLines_of_anywhere (h : ∀ x ∈ c.expectations, x.location = .anywhere) :
    c.listedLines = .ok none := by
  refine if_pos ?_
  cases hx : c.expectations with
  | nil => rfl
  | cons x xs =>
    have hplaced : x.location = .anywhere := h x (by rw [hx]; exact List.mem_cons_self)
    simp [hplaced, Location.isPlaced]

/-- The lines of a regular case can be listed, and its violations are found on them again. -/
theorem exists_listedLines (hr : c.Regular) (hs : c.Sized) :
    ∃ lines locations, c.listedLines = .ok lines ∧
      (∀ e, readLocations e (Snippet.extract (Snippet.block c.source)) c.expectations.length lines =
        .ok locations) ∧
      List.Forall₂ (fun x l => x.location.ReadsBackAs c.source (Snippet.extract (Snippet.block c.source)) l)
        c.expectations locations ∧
      ∀ listed, lines = some listed → listed ≠ [] ∧ listed.length = c.expectations.length ∧
        ∀ line ∈ listed, 1 ≤ line ∧ line ≤ Numeral.maxSize := by
  by_cases hanywhere : ∀ x ∈ c.expectations, x.location = .anywhere
  · refine ⟨none, List.replicate c.expectations.length .anywhere, listedLines_of_anywhere hanywhere,
      fun e => readLocations_eq_ok_iff.2 ⟨hs.count, .inl ⟨rfl, rfl⟩⟩, ?_, by rintro _ ⟨⟩⟩
    rw [← List.map_const']
    exact List.forall₂_map_right_iff.2 (List.forall₂_same.2 fun x hx => .inl ⟨hanywhere x hx, rfl⟩)
  · -- one violation with a location makes all of them located
    have hne : c.expectations ≠ [] := by
      intro hnil
      exact hanywhere (by simp [hnil])
    have hin := hr.allLocations.resolve_left hanywhere
    obtain ⟨placed, hplaced⟩ := exists_placed hr hs hin
    refine ⟨some (placed.map Prod.fst), placed.map fun p => .line p.1 p.2,
      listedLines_of_placed hne hin (hplaced.imp fun _ _ hp => hp.1), fun e => ?_, ?_, ?_⟩
    · refine readLocations_eq_ok_iff.2 ⟨hs.count, .inr ⟨_, rfl, ?_⟩⟩
      refine List.forall₂_map_left_iff.2 (List.forall₂_map_right_iff.2 (List.forall₂_same.2 fun p hp => ?_))
      obtain ⟨x, -, -, -, -, hregion⟩ := exists_of_mem_right hplaced hp
      exact ⟨p.2, hregion, rfl⟩
    · refine List.forall₂_map_right_iff.2 (hplaced.imp fun x p hp => .inr ⟨p.1, p.2, hp.1, hp.2.2.2, rfl⟩)
    · rintro _ ⟨⟩
      refine ⟨?_, ?_, ?_⟩
      · intro hnil
        rw [List.map_eq_nil_iff] at hnil
        rw [hnil] at hplaced
        exact hne (List.forall₂_nil_right_iff.1 hplaced)
      · rw [List.length_map, hplaced.length_eq]
      · intro line hline
        obtain ⟨p, hp, rfl⟩ := List.mem_map.1 hline
        obtain ⟨x, -, -, hpos, hle, -⟩ := exists_of_mem_right hplaced hp
        exact ⟨hpos, hle⟩

end Case

/-! ## A list of line numbers -/

/-- A property of the separator and of all parts is one of the joined text. -/
theorem forall_mem_join {p : Char → Prop} {separator : Text} {parts : List Text} (hs : ∀ c ∈ separator, p c)
    (h : ∀ part ∈ parts, ∀ c ∈ part, p c) : ∀ c ∈ Text.join separator parts, p c := by
  induction parts with
  | nil => exact fun c hc => absurd hc List.not_mem_nil
  | cons part parts ih =>
    rw [List.forall_mem_cons] at h
    intro c hc
    by_cases hn : parts = []
    · subst hn
      rw [Text.join, List.intercalate_singleton] at hc
      exact h.1 c hc
    · rw [Text.join, List.intercalate_cons_of_ne_nil hn, List.mem_append, List.mem_append] at hc
      rcases hc with (hc | hc) | hc
      · exact h.1 c hc
      · exact hs c hc
      · exact ih h.2 c hc

/-- A written number is an item of a list of lines, unless it is zero. -/
theorem isLineItem_ofNat_iff {n line : Nat} (h : n ≤ Numeral.maxSize) :
    IsLineItem (Text.ofNat n) line ↔ 1 ≤ n ∧ n = line := by
  have hread : IsLineItem (Text.ofNat n) line ↔ 0 < line ∧ Numeral.readSize (Text.ofNat n) = .ok line := by
    rw [IsLineItem, Text.trim_ofNat, Numeral.readSize_eq_ok_iff]
  rw [hread, Numeral.readSize_ofNat h, Except.ok.injEq]
  omega

theorem splitOn_join_ofNat {listed : List Nat} (hne : listed ≠ []) :
    (Text.join [','] (listed.map Text.ofNat)).splitOn ',' = listed.map Text.ofNat := by
  refine List.splitOn_intercalate ',' ?_ (by simp [hne])
  intro part hpart hc
  obtain ⟨n, -, rfl⟩ := List.mem_map.1 hpart
  exact absurd (Text.isDigit_of_mem_ofNat hc) (by decide)

theorem trim_join_ofNat (listed : List Nat) :
    Text.trim (Text.join [','] (listed.map Text.ofNat)) = Text.join [','] (listed.map Text.ofNat) := by
  refine Text.trim_eq_self_of_not_isBlank (forall_mem_join (List.forall_mem_singleton.2 rfl) fun part hpart c hc => ?_)
  obtain ⟨n, -, rfl⟩ := List.mem_map.1 hpart
  exact Text.isBlank_eq_false_of_isDigit (Text.isDigit_of_mem_ofNat hc)

theorem join_ofNat_ne_nil {listed : List Nat} (hne : listed ≠ []) : Text.join [','] (listed.map Text.ofNat) ≠ [] := by
  intro hnil
  have hsplit := splitOn_join_ofNat hne
  rw [hnil, List.splitOn_nil] at hsplit
  obtain ⟨line, others, rfl⟩ := List.exists_cons_of_ne_nil hne
  exact Text.ofNat_ne_nil line (List.cons.inj hsplit).1.symm

/-- Written lines are read as they are, unless there is a zero among them. -/
theorem lists_join_ofNat_iff {listed lines : List Nat} (hne : listed ≠ [])
    (hl : ∀ line ∈ listed, line ≤ Numeral.maxSize) :
    Lists (Text.join [','] (listed.map Text.ofNat)) lines ↔ lines = listed ∧ ∀ line ∈ listed, 1 ≤ line := by
  have hsize : ∀ R : Nat → Nat → Prop, List.Forall₂ R listed lines ↔
      List.Forall₂ (fun n line => n ≤ Numeral.maxSize ∧ R n line) listed lines := by
    intro R
    rw [List.forall₂_and_left, and_iff_right hl]
  have hitems : List.Forall₂ IsLineItem (listed.map Text.ofNat) lines ↔
      List.Forall₂ (fun n line => 1 ≤ n ∧ n = line) listed lines := by
    rw [List.forall₂_map_left_iff, hsize, hsize fun n line => 1 ≤ n ∧ n = line]
    simp only [and_congr_right fun h => isLineItem_ofNat_iff h]
  simp only [Schema.Lists, splitOn_join_ofNat hne, join_ofNat_ne_nil hne, hitems, List.forall₂_and_left,
    List.forall₂_eq_eq_eq, false_and, false_or, ne_eq, not_false_eq_true, true_and]
  rw [and_comm, eq_comm]

/-! ## The parts of an entry -/

theorem optionalText_eq (e : Element) (name : Text) :
    optionalText e name = ((e.childrenNamed name).map Element.innerText).head?.map Text.trim := by
  rw [optionalText, Element.child?_eq, List.head?_map, Option.map_map]
  rfl

namespace Case.Written

variable {c : Case} {lines : Option (List Nat)} {e : Element}

theorem requiredText_eq (h : c.Written lines e) :
    requiredText e Vocabulary.description = .ok (Text.trim c.description) := by
  rw [requiredText, optionalText_eq, h.description]
  rfl

theorem optionalText_eq (h : c.Written lines e) :
    optionalText e Vocabulary.sourceType = c.languageVersion.map Text.trim := by
  rw [Fixture.optionalText_eq, h.sourceType]
  cases c.languageVersion <;> rfl

theorem readCount_eq (h : c.Written lines e) (hn : c.expectations.length ≤ Numeral.maxSize) :
    readCount e = .ok c.expectations.length := by
  have htext : requiredText e Vocabulary.expectedProblems = .ok (Text.ofNat c.expectations.length) := by
    rw [requiredText, Fixture.optionalText_eq, h.count]
    simp [Text.trim_ofNat]
  rw [readCount, htext]
  simp [bind, Except.bind, Numeral.readSize_ofNat hn, pure, Except.pure]

theorem readLines_none (h : c.Written none e) : readLines e = .ok none := by
  rw [readLines, Fixture.optionalText_eq, h.lines]
  rfl

theorem optionalText_expectedLines {listed : List Nat} (h : c.Written (some listed) e) :
    optionalText e Vocabulary.expectedLines = some (Text.join [','] (listed.map Text.ofNat)) := by
  rw [Fixture.optionalText_eq, h.lines]
  simp [trim_join_ofNat]

theorem readLines_some {listed : List Nat} (h : c.Written (some listed) e) (hne : listed ≠ [])
    (hl : ∀ line ∈ listed, 1 ≤ line ∧ line ≤ Numeral.maxSize) : readLines e = .ok (some listed) := by
  have hlists := (lists_join_ofNat_iff hne fun line hline => (hl line hline).2).2
    ⟨rfl, fun line hline => (hl line hline).1⟩
  exact readLines_eq_ok_iff.2 (.inr ⟨_, listed, h.optionalText_expectedLines, hlists, rfl⟩)

theorem readMessages_eq (h : c.Written lines e) :
    readMessages e = c.listedMessages.map fun messages => messages.map Text.trim := by
  have hhead : readMessages e = ((e.childrenNamed Vocabulary.expectedMessages).map fun list =>
      (list.childrenNamed Vocabulary.message).map Element.innerText).head?.map fun messages =>
        messages.map Text.trim := by
    rw [readMessages, Element.child?_eq, List.head?_map, Option.map_map]
    congr 1
    funext list
    rw [Function.comp_apply, List.map_map]
    rfl
  rw [hhead, h.messages, listedMessages_eq]
  split <;> rfl

theorem readCode_eq (h : c.Written lines e) (fragment? : Text → Option Element) :
    readCode fragment? e = .ok (Snippet.block c.source) := by
  have hcode : (e.child? Vocabulary.code).map Element.innerText = some (Snippet.block c.source) := by
    rw [Element.child?_eq, ← List.head?_map, h.code]
    rfl
  obtain ⟨code, hchild, htext⟩ := Option.map_eq_some_iff.1 hcode
  rw [readCode, hchild]
  exact congrArg Except.ok htext

theorem readProperties_eq (h : c.Written lines e) :
    (e.childrenNamed Vocabulary.ruleProperty).mapM readProperty =
      .ok (c.properties.entries.map fun p => (p.1, Text.trim p.2)) := by
  refine mapM_eq_ok_iff.2 (List.forall₂_map_right_iff.2 ((map_eq_map_iff_forall₂.1 h.properties).imp ?_))
  intro property p hp
  obtain ⟨hname, hvalue⟩ := Prod.mk.inj hp
  rw [readProperty, hname]
  exact congrArg (fun text => Except.ok (p.1, Text.trim text)) hvalue

theorem readFlag_eq (h : c.Written lines e) {on : Bool} {name : Text} {off : List Text}
    (hs : (on, name) ∈ [(c.reinitializeRule, Vocabulary.reinitializeRule),
      (c.regressionTest, Vocabulary.regressionTest), (c.useAuxClasspath, Vocabulary.useAuxClasspath)])
    (hoff : off.contains "false".toList = true) : readFlag e name off = on := by
  have hvalue : e.attribute? name = if on = true then none else some "false".toList := by
    rw [h.settings.attribute?_eq, offSettings]
    simp only [List.mem_cons, List.not_mem_nil, or_false, Prod.mk.injEq] at hs
    rcases hs with ⟨rfl, rfl⟩ | ⟨rfl, rfl⟩ | ⟨rfl, rfl⟩ <;> cases c.reinitializeRule <;>
      cases c.regressionTest <;> cases c.useAuxClasspath <;> rfl
  have htrim : Text.trim "false".toList = "false".toList := by decide
  rw [readFlag, hvalue]
  cases on with
  | true => rfl
  | false =>
    simp only [Bool.false_eq_true, if_false, htrim, hoff]
    rfl

end Case.Written

/-! ## The entry of a regular case -/

namespace Case

variable {c : Case} {lines : Option (List Nat)} {e : Element}

theorem map_some_filterMap {xs : List Expectation} (h : ∀ x ∈ xs, x.message.isSome) :
    (xs.filterMap Expectation.message).map some = xs.map Expectation.message := by
  induction xs with
  | nil => rfl
  | cons x xs ih =>
    rw [List.forall_mem_cons] at h
    obtain ⟨m, hm⟩ := Option.isSome_iff_exists.1 h.1
    rw [List.filterMap_cons_some hm, List.map_cons, List.map_cons, ih h.2, hm]

/-- The messages of a regular case come back, one for each violation or none at all. -/
theorem messagesOf_readMessages (hr : c.Regular) (hw : c.Written lines e) :
    messagesOf c.expectations.length (readMessages e) = c.expectations.map Expectation.message ∧
      checkLength e .messages c.expectations.length (readMessages e) = .ok () := by
  rw [hw.readMessages_eq, listedMessages_eq]
  by_cases hall : ∀ x ∈ c.expectations, x.message.isSome
  · by_cases hne : c.expectations = []
    · simp [hne, messagesOf, checkLength]
    · have htrim : (c.expectations.filterMap Expectation.message).map Text.trim =
          c.expectations.filterMap Expectation.message := by
        conv_rhs => rw [← List.map_id (c.expectations.filterMap Expectation.message)]
        apply List.map_congr_left
        intro m hm
        obtain ⟨x, hx, hxm⟩ := List.mem_filterMap.1 hm
        exact hr.messages x hx m hxm
      have hlength : (c.expectations.filterMap Expectation.message).length = c.expectations.length := by
        rw [← List.length_map some, map_some_filterMap hall, List.length_map]
      rw [if_pos ⟨hne, hall⟩, Option.map_some, htrim]
      exact ⟨map_some_filterMap hall, if_pos hlength⟩
  · rw [if_neg fun h => hall h.2, Option.map_none]
    refine ⟨?_, rfl⟩
    rw [messagesOf, ← List.map_const']
    exact List.map_congr_left fun x hx => ((hr.allMessages.resolve_left hall) x hx).symm

theorem forall₂_zipWith {R : Location → Location → Prop} {xs : List Expectation} {locations : List Location}
    (h : List.Forall₂ (fun x l => R x.location l) xs locations) :
    List.Forall₂ (fun x y => y.message = x.message ∧ R x.location y.location) xs
      (List.zipWith Expectation.mk (xs.map Expectation.message) locations) := by
  induction h with
  | nil => exact .nil
  | cons hxl _ ih => exact .cons ⟨rfl, hxl⟩ ih

theorem Regular.map_trim_languageVersion (hr : c.Regular) : c.languageVersion.map Text.trim = c.languageVersion := by
  cases hv : c.languageVersion with
  | none => rfl
  | some v => rw [Option.map_some, hr.languageVersion v hv]

theorem Regular.ofList_map_trim (hr : c.Regular) :
    Properties.ofList (c.properties.entries.map fun p => (p.1, Text.trim p.2)) = c.properties := by
  have hmap : (c.properties.entries.map fun p => (p.1, Text.trim p.2)) = c.properties.entries := by
    conv_rhs => rw [← List.map_id c.properties.entries]
    apply List.map_congr_left
    intro p hp
    rw [hr.properties p hp]
    rfl
  rw [hmap, Properties.ofList_entries]

/-- What the parts of a written entry are put together to. -/
theorem assemble_eq (hr : c.Regular) (hw : c.Written lines e) (source : Text) (locations : List Location) :
    assemble e c.description c.expectations.length source locations
        (c.properties.entries.map fun p => (p.1, Text.trim p.2)) =
      { c with
        source
        expectations := List.zipWith Expectation.mk (c.expectations.map Expectation.message) locations } := by
  have hfirst : readFlag e Vocabulary.reinitializeRule ["false".toList, "0".toList] = c.reinitializeRule :=
    hw.readFlag_eq (by simp) (by decide)
  have hsecond : readFlag e Vocabulary.regressionTest ["false".toList] = c.regressionTest :=
    hw.readFlag_eq (by simp) (by decide)
  have hthird : readFlag e Vocabulary.useAuxClasspath ["false".toList] = c.useAuxClasspath :=
    hw.readFlag_eq (by simp) (by decide)
  rw [assemble, (messagesOf_readMessages hr hw).1, hr.ofList_map_trim, hw.optionalText_eq,
    hr.map_trim_languageVersion, hfirst, hsecond, hthird]

/-- The entry of a regular case is read as the case that comes back. -/
theorem exists_readsAs (hr : c.Regular) (hs : c.Sized) (hl : c.listedLines = .ok lines)
    (hw : c.Written lines e) (root : Element) : ∃ read, ReadsAs root e read ∧ c.ReadsBackAs read := by
  obtain ⟨_, locations, hl', hlocations, hback, hlisted⟩ := exists_listedLines hr hs
  obtain rfl := Except.ok.inj (hl.symm.trans hl')
  have hdescription : requiredText e Vocabulary.description = .ok c.description := by
    rw [hw.requiredText_eq, hr.description]
  have hlines : readLines e = .ok lines ∧ checkLength e .lines c.expectations.length lines = .ok () := by
    cases lines with
    | none => exact ⟨hw.readLines_none, rfl⟩
    | some listed =>
      obtain ⟨hne, hlength, hbounds⟩ := hlisted listed rfl
      exact ⟨hw.readLines_some hne hbounds, if_pos hlength⟩
  have hread := readCase_eq_ok_iff.2 ⟨c.description, c.expectations.length, lines, Snippet.block c.source, locations,
    hdescription, hw.readCount_eq hs.length_le_maxSize, hlines.1, hw.readCode_eq (fragment? root),
    (messagesOf_readMessages hr hw).2, hlines.2, hlocations e, hw.readProperties_eq, rfl⟩
  exact ⟨_, ⟨_, hread⟩, _, forall₂_zipWith hback, assemble_eq hr hw _ _⟩

end Case

end LintFixture.Fixture
