import LintFixture.Fixture.Buffer
import LintFixture.Fixture.Overrides
import LintFixture.Proofs.Fixture.Validity

/-!
# The overrides of a suite

A suite that is read hands on one override for each property of its entries, in
document order, and one that is not read hands on none (`Suite.handsOn`). A record of
them has the properties of each case (`Overrides.propertiesOf_foldl_record`), and
reading with a buffer is reading (`Suite.ofDocumentBuffered_eq`).
-/

namespace LintFixture.Fixture

open Markup

/-! ## Recording -/

namespace Properties

/-- The properties, if there are any. -/
def nonempty? (p : Properties) : Option Properties := if p.isEmpty then none else some p

theorem isEmpty_insert (p : Properties) (name value : Text) : (p.insert name value).isEmpty = false := by
  have hput : put name value p.entries ≠ [] := by
    unfold put
    split
    · exact List.cons_ne_nil _ _
    · split
      · exact List.cons_ne_nil _ _
      · split <;> exact List.cons_ne_nil _ _
  exact List.isEmpty_eq_false_iff.2 hput

theorem nonempty?_insert (p : Properties) (name value : Text) :
    (p.insert name value).nonempty? = some (p.insert name value) := by
  rw [nonempty?, isEmpty_insert]
  rfl

theorem getD_nonempty? (p : Properties) : p.nonempty?.getD .empty = p := by
  unfold nonempty?
  split
  · next h => exact eq_of_entries (List.isEmpty_iff.1 h).symm
  · rfl

end Properties

/-- The overrides by which the entry at `index` sets values, one after the other. -/
def overridesOf (index : Nat) (pairs : List (Text × Text)) : List Override :=
  pairs.map fun (name, value) => ⟨index, name, value⟩

namespace Overrides

/-- The overrides of one entry, the first of it, are its properties in a record. -/
theorem propertiesOf_foldl_overridesOf {o : Overrides} {index : Nat} (h : o.propertiesOf index = none)
    (pairs : List (Text × Text)) (i : Nat) :
    ((overridesOf index pairs).foldl record o).propertiesOf i =
      if i = index then (Properties.ofList pairs).nonempty? else o.propertiesOf i := by
  induction pairs using List.reverseRecOn generalizing i with
  | nil =>
    by_cases hi : i = index
    · rw [if_pos hi, hi]
      exact h
    · rw [if_neg hi]
      rfl
  | append_singleton pairs pair ih =>
    rw [overridesOf, List.map_append, List.foldl_append]
    show (record ((overridesOf index pairs).foldl record o) ⟨index, pair.1, pair.2⟩).propertiesOf i = _
    rw [propertiesOf_record, ih, ih, if_pos rfl, Properties.getD_nonempty?, Properties.ofList_concat,
      Properties.nonempty?_insert]
    by_cases hi : i = index
    · rw [if_pos hi, if_pos hi]
    · rw [if_neg hi, if_neg hi, if_neg hi]

/-- A record of the overrides of all entries, in order, has the properties of each entry that sets any. -/
theorem propertiesOf_foldl_record (entries : List (List (Text × Text))) (i : Nat) :
    ((entries.zipIdx.flatMap fun (pairs, index) => overridesOf index pairs).foldl record empty).propertiesOf i =
      entries[i]?.bind fun pairs => (Properties.ofList pairs).nonempty? := by
  induction entries using List.reverseRecOn generalizing i with
  | nil => rfl
  | append_singleton entries pairs ih =>
    -- the record has nothing yet for the last entry
    have hnew := ih entries.length
    rw [List.getElem?_eq_none (Nat.le_refl _)] at hnew
    rw [List.zipIdx_append, List.flatMap_append, List.foldl_append, Nat.zero_add]
    simp only [List.zipIdx_singleton, List.flatMap_singleton]
    rw [propertiesOf_foldl_overridesOf hnew, ih]
    split
    · next hi => simp [hi]
    · next hi =>
      rcases Nat.lt_or_gt_of_ne hi with hlt | hgt
      · rw [List.getElem?_append_left hlt]
      · rw [List.getElem?_eq_none (Nat.le_of_lt hgt), List.getElem?_eq_none (by simp; omega)]

end Overrides

/-! ## What is handed on -/

namespace Schema

/-- The properties that the entries below a root set, each with the index of its entry, in document order. -/
def declarations (root : Element) : List (Nat × Element) :=
  (root.childrenNamed Vocabulary.testCode).zipIdx.flatMap fun (e, index) =>
    (e.childrenNamed Vocabulary.ruleProperty).map fun property => (index, property)

/-- The override names the declared property and gives its value. -/
def IsOverride (declared : Nat × Element) (call : Override) : Prop :=
  call.index = declared.1 ∧ declared.2.attribute? Vocabulary.name = some call.name ∧ call.value = textOf declared.2

/-- The case and the overrides that an entry at `index` is read as, by the values it sets. -/
def IsReadAs (e : Element) (index : Nat) (c : Case) (calls : List Override) (pairs : List (Text × Text)) : Prop :=
  List.Forall₂ IsProperty (e.childrenNamed Vocabulary.ruleProperty) pairs ∧ calls = overridesOf index pairs ∧
    c.properties = .ofList pairs

theorem exists_isReadAs {fragment? : Text → Option Element} {e : Element} {index : Nat} {c : Case}
    {calls : List Override} (h : readEntry fragment? e index = .ok (c, calls)) :
    ∃ pairs, IsReadAs e index c calls pairs := by
  unfold readEntry at h
  split at h
  · next entry pairs hread =>
    cases h
    obtain ⟨description, count, lines, raw, locations, -, -, -, -, -, -, -, hpairs, rfl⟩ := readCase_eq_ok_iff.1 hread
    simp only [mapM_eq_ok_iff, readProperty_eq_ok_iff] at hpairs
    exact ⟨pairs, hpairs, rfl, rfl⟩
  · cases h

/-- The entries from index `n` on, by the values each of them sets. -/
theorem exists_values {entries : List Element} {n : Nat} {read : List (Case × List Override)}
    (h : List.Forall₂ (fun p x => ∃ pairs, IsReadAs p.1 p.2 x.1 x.2 pairs) (entries.zipIdx n) read) :
    ∃ values, List.Forall₂ (fun e pairs => List.Forall₂ IsProperty (e.childrenNamed Vocabulary.ruleProperty) pairs)
        entries values ∧
      read.flatMap Prod.snd = (values.zipIdx n).flatMap (fun (pairs, index) => overridesOf index pairs) ∧
      read.map (fun x => x.1.properties) = values.map Properties.ofList := by
  induction entries generalizing n read with
  | nil =>
    cases h
    exact ⟨[], .nil, rfl, rfl⟩
  | cons e entries ih =>
    rw [List.zipIdx_cons, List.forall₂_cons_left_iff] at h
    obtain ⟨x, others, ⟨pairs, hpairs, hcalls, hproperties⟩, hothers, rfl⟩ := h
    obtain ⟨values, hvalues, hflat, hmap⟩ := ih hothers
    refine ⟨pairs :: values, .cons hpairs hvalues, ?_, ?_⟩
    · rw [List.flatMap_cons, List.zipIdx_cons, List.flatMap_cons, hcalls, hflat]
    · rw [List.map_cons, List.map_cons, hproperties, hmap]

/-- A suite and its overrides, by the values its entries set. -/
theorem exists_values_of_readRoot {root : Element} {s : Suite} {calls : List Override}
    (h : readRoot root = .ok (s, calls)) :
    ∃ values, List.Forall₂ (fun e pairs => List.Forall₂ IsProperty (e.childrenNamed Vocabulary.ruleProperty) pairs)
        (root.childrenNamed Vocabulary.testCode) values ∧
      calls = values.zipIdx.flatMap (fun (pairs, index) => overridesOf index pairs) ∧
      s.cases.map Case.properties = values.map Properties.ofList := by
  have hname : root.name = Vocabulary.testData := by
    by_contra hne
    rw [readRoot, if_neg hne] at h
    cases h
  rw [readRoot_eq hname] at h
  obtain ⟨read, hread, h⟩ := bind_eq_ok_iff.1 h
  cases h
  have heach := (mapM_eq_ok_iff.1 hread).imp fun p x hx => exists_isReadAs hx
  obtain ⟨values, hvalues, hcalls, hproperties⟩ := exists_values heach
  exact ⟨values, hvalues, hcalls, by rw [← hproperties, List.map_map]; rfl⟩

/-- Each value that is set is an override of its declaration. -/
theorem forall₂_isOverride {entries : List Element} {values : List (List (Text × Text))} (n : Nat)
    (h : List.Forall₂ (fun e pairs => List.Forall₂ IsProperty (e.childrenNamed Vocabulary.ruleProperty) pairs)
      entries values) :
    List.Forall₂ IsOverride
      ((entries.zipIdx n).flatMap fun (e, index) =>
        (e.childrenNamed Vocabulary.ruleProperty).map fun property => (index, property))
      ((values.zipIdx n).flatMap fun (pairs, index) => overridesOf index pairs) := by
  induction h generalizing n with
  | nil => exact .nil
  | cons hpairs _ ih =>
    rw [List.zipIdx_cons, List.zipIdx_cons, List.flatMap_cons, List.flatMap_cons]
    refine List.rel_append ?_ (ih (n + 1))
    refine List.forall₂_map_left_iff.2 (List.forall₂_map_right_iff.2 ?_)
    exact hpairs.imp fun property pair hpair => ⟨rfl, hpair⟩

/-! ## The buffer

What is in the buffer when reading fails is dropped, so the lemmas on failure are about the result alone.
-/

theorem properties_of_readBody {fragment? : Text → Option Element} {e : Element} {c : Case}
    (h : readBody fragment? e = .ok c) : c.properties = .empty := by
  obtain ⟨description, count, lines, raw, locations, -, -, -, -, -, -, -, rfl⟩ := readBody_eq_ok_iff.1 h
  rfl

theorem bufferProperties_of_ok {properties : List Element} {pairs : List (Text × Text)}
    (h : properties.mapM readProperty = .ok pairs) (index : Nat) (c : Case) (buffer : List Override) :
    bufferProperties index c buffer properties =
      ⟨.ok { c with properties := pairs.foldl (fun p (name, value) => p.insert name value) c.properties },
        buffer ++ overridesOf index pairs⟩ := by
  induction properties generalizing pairs c buffer with
  | nil =>
    cases h
    simp [bufferProperties, overridesOf]
  | cons property properties ih =>
    rw [List.mapM_cons] at h
    obtain ⟨pair, hpair, h⟩ := bind_eq_ok_iff.1 h
    obtain ⟨others, hothers, h⟩ := bind_eq_ok_iff.1 h
    cases h
    obtain ⟨hname, hvalue⟩ := readProperty_eq_ok_iff.1 hpair
    rw [bufferProperties, hname]
    simp only
    rw [ih hothers, ← hvalue, List.append_assoc]
    rfl

theorem bufferProperties_of_error {properties : List Element} {stop : Stop Flaw}
    (h : properties.mapM readProperty = .error stop) (index : Nat) (c : Case) (buffer : List Override) :
    (bufferProperties index c buffer properties).result = .error stop := by
  induction properties generalizing c buffer with
  | nil => cases h
  | cons property properties ih =>
    rw [List.mapM_cons, readProperty] at h
    rw [bufferProperties]
    cases hname : property.attribute? Vocabulary.name with
    | none =>
      rw [hname] at h
      cases h
      rfl
    | some name =>
      rw [hname] at h
      refine ih ?_ _ _
      cases hothers : properties.mapM readProperty with
      | error other =>
        rw [hothers] at h
        cases h
        rfl
      | ok others =>
        rw [hothers] at h
        cases h

variable {fragment? : Text → Option Element}

theorem bufferEntry_of_ok {e : Element} {index : Nat} {c : Case} {calls : List Override}
    (h : readEntry fragment? e index = .ok (c, calls)) (buffer : List Override) :
    bufferEntry fragment? buffer e index = ⟨.ok c, buffer ++ calls⟩ := by
  unfold readEntry at h
  split at h
  · next entry pairs hread =>
    cases h
    obtain ⟨body, hbody, hread⟩ := bind_eq_ok_iff.1 hread
    obtain ⟨hpairs, rfl⟩ := readProperties_eq_ok_iff.1 hread
    simp only [bufferEntry, hbody, bufferProperties_of_ok hpairs, properties_of_readBody hbody]
    rfl
  · cases h

theorem bufferEntry_of_error {e : Element} {index : Nat} {stop : Stop Error}
    (h : readEntry fragment? e index = .error stop) (buffer : List Override) :
    (bufferEntry fragment? buffer e index).result = .error stop := by
  unfold readEntry at h
  split at h
  · cases h
  · next own hread =>
    cases h
    rcases bind_eq_error_iff.1 hread with hbody | ⟨body, hbody, hproperties⟩
    · simp only [bufferEntry, hbody]
      rfl
    · rcases bind_eq_error_iff.1 hproperties with hpairs | ⟨pairs, -, hnone⟩
      · simp only [bufferEntry, hbody, bufferProperties_of_error hpairs]
        rfl
      · cases hnone

theorem bufferEntries_of_ok {entries : List (Element × Nat)} {read : List (Case × List Override)}
    (h : entries.mapM (fun p => readEntry fragment? p.1 p.2) = .ok read) (buffer : List Override) :
    bufferEntries fragment? buffer entries = ⟨.ok (read.map Prod.fst), buffer ++ read.flatMap Prod.snd⟩ := by
  induction entries generalizing read buffer with
  | nil =>
    cases h
    simp [bufferEntries]
  | cons p entries ih =>
    rw [List.mapM_cons] at h
    obtain ⟨⟨c, calls⟩, hentry, h⟩ := bind_eq_ok_iff.1 h
    obtain ⟨others, hothers, h⟩ := bind_eq_ok_iff.1 h
    cases h
    simp only [bufferEntries, bufferEntry_of_ok hentry, ih hothers, List.flatMap_cons, List.append_assoc]
    rfl

theorem bufferEntries_of_error {entries : List (Element × Nat)} {stop : Stop Error}
    (h : entries.mapM (fun p => readEntry fragment? p.1 p.2) = .error stop) (buffer : List Override) :
    (bufferEntries fragment? buffer entries).result = .error stop := by
  induction entries generalizing buffer with
  | nil => cases h
  | cons p entries ih =>
    rw [List.mapM_cons] at h
    cases hentry : readEntry fragment? p.1 p.2 with
    | error other =>
      rw [hentry] at h
      cases h
      have hresult := bufferEntry_of_error hentry buffer
      unfold bufferEntries
      split
      · next heq =>
        rw [heq] at hresult
        cases hresult
        rfl
      · next heq =>
        rw [heq] at hresult
        cases hresult
    | ok x =>
      obtain ⟨c, calls⟩ := x
      rw [hentry] at h
      cases hothers : entries.mapM (fun p => readEntry fragment? p.1 p.2) with
      | error other =>
        rw [hothers] at h
        cases h
        simp only [bufferEntries, bufferEntry_of_ok hentry, ih hothers]
        rfl
      | ok others =>
        rw [hothers] at h
        cases h

end Schema

/-- With a buffer a suite is read as without one, and the same is handed on. -/
theorem Suite.ofDocumentBuffered_eq {σ : Type} (record : σ → Override → σ) (state : σ) (d : Document) :
    ofDocumentBuffered record state d = ofDocumentWith record state d := by
  unfold ofDocumentBuffered ofDocumentWith
  by_cases hname : d.root.name = Vocabulary.testData
  · rw [Schema.readRoot_eq hname]
    simp only [hname, if_true]
    cases hread : (d.root.childrenNamed Vocabulary.testCode).zipIdx.mapM
        fun p => Schema.readEntry (Schema.fragment? d.root) p.1 p.2 with
    | ok read =>
      rw [Schema.bufferEntries_of_ok hread]
      rfl
    | error e =>
      have hresult := Schema.bufferEntries_of_error hread []
      split
      · next heq =>
        rw [heq] at hresult
        cases hresult
      · next heq =>
        rw [heq] at hresult
        cases hresult
        rfl
  · simp only [hname, if_false, Schema.readRoot]

/-! ## Main statement -/

/-- Reading a document makes no call when it fails. When it gives a suite, there is one call for each declaration of a
property, in document order, and a record of the calls has the properties of each case that has any. -/
theorem Suite.handsOn (d : Document) :
    (∀ (σ : Type) (record : σ → Override → σ) (state : σ),
      ofDocumentBuffered record state d = ofDocumentWith record state d) ∧
    ((∃ e, ofDocument d = .error e ∧
      ∀ (σ : Type) (record : σ → Override → σ) (state : σ), ofDocumentWith record state d = (.error e, state)) ∨
    ∃ s calls, ofDocument d = .ok s ∧ List.Forall₂ Schema.IsOverride (Schema.declarations d.root) calls ∧
      (∀ (σ : Type) (record : σ → Override → σ) (state : σ),
        ofDocumentWith record state d = (.ok s, calls.foldl record state)) ∧
      ∀ i, (ofDocumentWith Overrides.record .empty d).2.propertiesOf i =
        s.cases[i]?.bind fun c => c.properties.nonempty?) := by
  refine ⟨fun σ record state => ofDocumentBuffered_eq record state d, ?_⟩
  cases hroot : Schema.readRoot d.root with
  | error e =>
    refine .inl ⟨e, by rw [ofDocument, hroot]; rfl, fun σ record state => ?_⟩
    simp only [ofDocumentWith, hroot]
  | ok read =>
    obtain ⟨s, calls⟩ := read
    obtain ⟨values, hvalues, rfl, hproperties⟩ := Schema.exists_values_of_readRoot hroot
    refine .inr ⟨s, _, by rw [ofDocument, hroot]; rfl, Schema.forall₂_isOverride 0 hvalues, ?_, fun i => ?_⟩
    · intro σ record state
      simp only [ofDocumentWith, hroot]
    · -- the record and the cases both have the values of the entries
      have hcase : s.cases[i]?.map Case.properties = values[i]?.map Properties.ofList := by
        rw [← List.getElem?_map, hproperties, List.getElem?_map]
      have hfound := congrArg (fun found => found.bind Properties.nonempty?) hcase
      simp only [Option.bind_map] at hfound
      simp only [ofDocumentWith, hroot]
      rw [Overrides.propertiesOf_foldl_record]
      exact hfound.symm

end LintFixture.Fixture
