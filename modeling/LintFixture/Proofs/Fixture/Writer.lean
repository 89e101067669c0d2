import LintFixture.Fixture.Writer
import LintFixture.Proofs.Markup.Sheet
import LintFixture.Proofs.Traversal

/-!
# The document of a suite holds its data

Whatever characters the texts of a suite consist of, the written document is read
(`Suite.exists_document_of_write`), and the entry of a case holds the data of the
case as it is, nothing trimmed and nothing added (`Case.Written`).
-/

namespace LintFixture

open Markup Fixture

namespace Markup

/-! ## Finding the parts of a sheet -/

namespace Sheet

/-- The name of the element. -/
def name : Sheet → Text
  | .text name _ _ | .cdata name _ _ | .group name _ _ => name

/-- The local name of the element. -/
def localName (sheet : Sheet) : Text := (Name.ofText sheet.name).localPart

variable {name n content : Text} {attributes : List (Text × Text)} {parts : List Text} {e : Element}

theorem Shows.name_eq {sheet : Sheet} (h : sheet.Shows e) : e.name = sheet.localName := by
  cases h with
  | text ht => exact congrArg Name.localPart ht.1
  | cdata ht => exact congrArg Name.localPart ht.1
  | group ht => exact congrArg Name.localPart ht.1

theorem Shows.innerText_text (h : (Sheet.text name attributes content).Shows e) : e.innerText = content := by
  cases h with
  | text _ _ hc => exact hc

theorem Shows.innerText_cdata (h : (Sheet.cdata name attributes parts).Shows e) : e.innerText = parts.flatten := by
  cases h with
  | cdata _ _ hc => exact hc

theorem Shows.hasTag_text (h : (Sheet.text name attributes content).Shows e) : e.HasTag name attributes := by
  cases h with
  | text ht => exact ht

/-- The children of a name are those of the sheets of that name. -/
theorem forall₂_childrenNamed {sheets : List Sheet} (h : List.Forall₂ Shows sheets e.elements) (n : Text) :
    List.Forall₂ Shows (sheets.filter fun sheet => sheet.localName == n) (e.childrenNamed n) := by
  refine List.rel_filter (fun sheet child hs => ?_) h
  show (sheet.localName == n) = true ↔ (child.name == n) = true
  rw [hs.name_eq]

/-- The children that were written from texts hold the texts. -/
theorem map_innerText_of_shows {texts : List Text} {es : List Element}
    (h : List.Forall₂ Shows (texts.map (.text name attributes)) es) : es.map Element.innerText = texts := by
  have htexts : texts.map id = es.map Element.innerText :=
    map_eq_map_iff_forall₂.2 ((List.forall₂_map_left_iff.1 h).imp fun _ _ hs => hs.innerText_text.symm)
  rw [← htexts, List.map_id]

/-- The same below an element that holds nothing else. -/
theorem map_innerText_childrenNamed {texts : List Text}
    (h : List.Forall₂ Shows (texts.map (.text name attributes)) e.elements)
    (hn : (Name.ofText name).localPart = name) : (e.childrenNamed name).map Element.innerText = texts := by
  have hall : ∀ sheet ∈ texts.map (Sheet.text name attributes), (sheet.localName == name) = true := by
    intro sheet hs
    obtain ⟨_, -, rfl⟩ := List.mem_map.1 hs
    exact beq_iff_eq.2 hn
  have hc := forall₂_childrenNamed h name
  rw [List.filter_eq_self.2 hall] at hc
  exact map_innerText_of_shows hc

end Sheet

/-- The value of an attribute as it was written. -/
theorem Element.HasTag.attribute?_eq {e : Element} {name : Text} {attributes : List (Text × Text)}
    (h : e.HasTag name attributes) (n : Text) :
    e.attribute? n = (attributes.find? fun a => (Name.ofText a.1).localPart = n).map Prod.snd := by
  have hread : e.attribute? n = ((e.tag.attributes.map fun a => (a.name, a.value)).find?
      fun a => a.1.localPart = n).map Prod.snd := by
    rw [List.find?_map, Option.map_map]
    rfl
  rw [hread, h.2, List.find?_map, Option.map_map]
  rfl

end Markup

namespace Fixture

/-! ## The entry of a case -/

theorem filter_const {α : Type} (b : Bool) (l : List α) :
    l.filter (fun _ => b) = if b = true then l else [] := by
  cases b
  · exact List.filter_false l
  · exact List.filter_true l

namespace Case

/-- The parts of one name, as lists of which all but one are empty. -/
theorem filter_parts (c : Case) (lines : Option (List Nat)) (n : Text) :
    (c.parts lines).filter (fun sheet => sheet.localName == n) =
      (if Vocabulary.description = n then [c.description].map (.text Vocabulary.description []) else [])
      ++ (if Vocabulary.ruleProperty = n then c.properties.entries.map fun p =>
          .text Vocabulary.ruleProperty [(Vocabulary.name, p.1)] p.2 else [])
      ++ (if Vocabulary.expectedProblems = n then
          [Text.ofNat c.expectations.length].map (.text Vocabulary.expectedProblems []) else [])
      ++ (if Vocabulary.expectedLines = n then
          (lines.toList.map fun lines => Text.join [','] (lines.map Text.ofNat)).map
            (.text Vocabulary.expectedLines []) else [])
      ++ (if Vocabulary.expectedMessages = n then c.listedMessages.toList.map fun messages =>
          .group Vocabulary.expectedMessages [] (messages.map (.text Vocabulary.message [])) else [])
      ++ (if Vocabulary.code = n then [.cdata Vocabulary.code [] (Sheet.sections (Snippet.block c.source))] else [])
      ++ (if Vocabulary.sourceType = n then c.languageVersion.toList.map (.text Vocabulary.sourceType [])
          else []) := by
  have hname : ∀ m ∈ [Vocabulary.description, Vocabulary.ruleProperty, Vocabulary.expectedProblems,
      Vocabulary.expectedLines, Vocabulary.expectedMessages, Vocabulary.code, Vocabulary.sourceType],
      (Name.ofText m).localPart = m := by decide
  simp only [List.forall_mem_cons] at hname
  simp only [parts, List.filter_append, List.filter_map, Option.toList_map, Function.comp_def, List.filter_cons,
    List.filter_nil, Sheet.localName, Sheet.name, hname, filter_const, beq_iff_eq,
    apply_ite (List.map _), List.map_nil, List.map_map, List.map_cons]

end Case

/-- An entry that holds the data of a case, given the lines it lists. Every list has one text for
each element of that name. -/
structure Case.Written (c : Case) (lines : Option (List Nat)) (e : Element) : Prop where
  settings : e.HasTag Vocabulary.testCode (c.offSettings.map fun name => (name, "false".toList))
  description : (e.childrenNamed Vocabulary.description).map Element.innerText = [c.description]
  sourceType : (e.childrenNamed Vocabulary.sourceType).map Element.innerText = c.languageVersion.toList
  properties : (e.childrenNamed Vocabulary.ruleProperty).map
      (fun property => (property.attribute? Vocabulary.name, property.innerText)) =
    c.properties.entries.map fun (name, value) => (some name, value)
  count : (e.childrenNamed Vocabulary.expectedProblems).map Element.innerText =
    [Text.ofNat c.expectations.length]
  lines : (e.childrenNamed Vocabulary.expectedLines).map Element.innerText =
    lines.toList.map fun lines => Text.join [','] (lines.map Text.ofNat)
  messages : (e.childrenNamed Vocabulary.expectedMessages).map
      (fun list => (list.childrenNamed Vocabulary.message).map Element.innerText) =
    if c.expectations ≠ [] ∧ ∀ x ∈ c.expectations, x.message.isSome then
      [c.expectations.filterMap Expectation.message]
    else []
  code : (e.childrenNamed Vocabulary.code).map Element.innerText =
    ['\n' :: Snippet.indent c.source ++ '\n' :: List.replicate 8 ' ']

namespace Case

theorem mapM_message (xs : List Expectation) :
    xs.mapM Expectation.message =
      if ∀ x ∈ xs, x.message.isSome then some (xs.filterMap Expectation.message) else none := by
  induction xs with
  | nil => rfl
  | cons x xs ih =>
    rw [List.mapM_cons, ih]
    cases hx : x.message with
    | none => simp [hx]
    | some message =>
      simp only [List.forall_mem_cons, hx, Option.isSome_some, true_and, List.filterMap_cons]
      split <;> rfl

/-- Messages are listed when there are any and no violation lacks one. -/
theorem listedMessages_eq (c : Case) :
    c.listedMessages =
      if c.expectations ≠ [] ∧ ∀ x ∈ c.expectations, x.message.isSome then
        some (c.expectations.filterMap Expectation.message)
      else none := by
  rw [listedMessages, mapM_message]
  by_cases hall : ∀ x ∈ c.expectations, x.message.isSome
  · rw [if_pos hall]
    cases hx : c.expectations with
    | nil => rfl
    | cons x xs =>
      rw [hx] at hall
      obtain ⟨message, hm⟩ := Option.isSome_iff_exists.1 (hall x List.mem_cons_self)
      rw [if_pos ⟨List.cons_ne_nil x xs, hall⟩, Option.filter_some, if_pos (by simp [hm])]
  · rw [if_neg hall, if_neg fun h => hall h.2]
    rfl

variable {c : Case} {lines : Option (List Nat)} {e : Element}

/-- An element that shows the entry of a case holds the data of the case. -/
theorem written_of_shows (h : (c.sheetWith lines).Shows e) : c.Written lines e := by
  rw [sheetWith] at h
  cases h with
  | group ht hc =>
    -- for every name, all lists but that of the name are empty
    have hparts := fun n => Sheet.forall₂_childrenNamed hc n
    simp only [filter_parts] at hparts
    constructor
    case settings => exact ht
    case description =>
      have hd := hparts Vocabulary.description
      simp +decide only [if_true, if_false, List.append_nil] at hd
      exact Sheet.map_innerText_of_shows hd
    case sourceType =>
      have hs := hparts Vocabulary.sourceType
      simp +decide only [if_true, if_false, List.append_nil, List.nil_append] at hs
      exact Sheet.map_innerText_of_shows hs
    case properties =>
      have hp := hparts Vocabulary.ruleProperty
      simp +decide only [if_true, if_false, List.append_nil, List.nil_append] at hp
      refine (map_eq_map_iff_forall₂.2 ((List.forall₂_map_left_iff.1 hp).imp fun p property hs => ?_)).symm
      rw [hs.hasTag_text.attribute?_eq, hs.innerText_text]
      rfl
    case count =>
      have hn := hparts Vocabulary.expectedProblems
      simp +decide only [if_true, if_false, List.append_nil, List.nil_append] at hn
      exact Sheet.map_innerText_of_shows hn
    case lines =>
      have hl := hparts Vocabulary.expectedLines
      simp +decide only [if_true, if_false, List.append_nil, List.nil_append] at hl
      exact Sheet.map_innerText_of_shows hl
    case messages =>
      have hm := hparts Vocabulary.expectedMessages
      simp +decide only [if_true, if_false, List.append_nil, List.nil_append] at hm
      have hlists : c.listedMessages.toList.map id = (e.childrenNamed Vocabulary.expectedMessages).map
          fun list => (list.childrenNamed Vocabulary.message).map Element.innerText := by
        refine map_eq_map_iff_forall₂.2 ((List.forall₂_map_left_iff.1 hm).imp fun messages list hs => ?_)
        cases hs with
        | group _ hlist => exact (Sheet.map_innerText_childrenNamed hlist rfl).symm
      rw [← hlists, List.map_id, listedMessages_eq]
      split <;> rfl
    case code =>
      have hc := hparts Vocabulary.code
      simp +decide only [if_true, if_false, List.append_nil, List.nil_append] at hc
      obtain ⟨code, others, hs, ho, heq⟩ := List.forall₂_cons_left_iff.1 hc
      rw [heq, List.forall₂_nil_left_iff.1 ho, List.map_singleton, hs.innerText_cdata, Sheet.flatten_sections]
      rfl

/-! ## The document is read -/

theorem arePlainAttributes_settings (c : Case) :
    ArePlainAttributes (c.offSettings.map fun name => (name, "false".toList)) := by
  unfold offSettings
  cases c.reinitializeRule <;> cases c.regressionTest <;> cases c.useAuxClasspath <;> decide

theorem writable_of_mem_parts {part : Sheet} (h : part ∈ c.parts lines) : part.Writable := by
  simp only [parts, List.mem_append, or_assoc] at h
  rcases h with h | h | h | h | h | h | h
  · obtain rfl := List.mem_singleton.1 h
    exact .text (by decide) arePlainAttributes_nil
  · obtain ⟨property, -, rfl⟩ := List.mem_map.1 h
    refine .text (by decide) ⟨fun a ha => ?_, by simp⟩
    rw [List.mem_singleton.1 ha]
    show IsPlainName Vocabulary.name
    decide
  · obtain rfl := List.mem_singleton.1 h
    exact .text (by decide) arePlainAttributes_nil
  · obtain ⟨_, -, rfl⟩ := Option.map_eq_some_iff.1 (Option.mem_toList.1 h)
    exact .text (by decide) arePlainAttributes_nil
  · obtain ⟨messages, -, rfl⟩ := Option.map_eq_some_iff.1 (Option.mem_toList.1 h)
    apply Sheet.Writable.group (by decide) arePlainAttributes_nil
    intro message hm
    obtain ⟨_, -, rfl⟩ := List.mem_map.1 hm
    exact .text (by decide) arePlainAttributes_nil
  · obtain rfl := List.mem_singleton.1 h
    exact .cdata (by decide) arePlainAttributes_nil fun part => Sheet.not_infix_of_mem_sections
  · obtain ⟨_, -, rfl⟩ := Option.map_eq_some_iff.1 (Option.mem_toList.1 h)
    exact .text (by decide) arePlainAttributes_nil

/-- The entry of a case can be written, whatever its texts are. -/
theorem writable_sheetWith (c : Case) (lines : Option (List Nat)) : (c.sheetWith lines).Writable := by
  rw [sheetWith]
  exact .group (by decide) c.arePlainAttributes_settings fun part => writable_of_mem_parts

/-- The sheet is the entry of the case, with the lines that the case lists. -/
def HasEntry (c : Case) (entry : Sheet) : Prop := ∃ lines, c.listedLines = .ok lines ∧ entry = c.sheetWith lines

theorem sheet_eq_ok_iff {index : Nat} {entry : Sheet} : c.sheet index = .ok entry ↔ c.HasEntry entry := by
  unfold sheet HasEntry
  cases c.listedLines with
  | ok lines => simp [eq_comm]
  | error cause => simp

theorem HasEntry.writable {entry : Sheet} (h : c.HasEntry entry) : entry.Writable := by
  obtain ⟨lines, -, rfl⟩ := h
  exact c.writable_sheetWith lines

end Case

namespace Suite

variable {s : Suite} {x : Text}

theorem sheet_eq (s : Suite) :
    s.sheet = (s.cases.zipIdx.mapM fun p => p.1.sheet p.2) >>= fun entries =>
      .ok (.group Vocabulary.testData rootAttributes entries) := rfl

/-- What is written is a document with one entry for each case. -/
theorem write_eq_ok_iff :
    s.write = .ok x ↔
      ∃ entries, List.Forall₂ Case.HasEntry s.cases entries ∧
        x = (Sheet.group Vocabulary.testData rootAttributes entries).document := by
  have hentries : ∀ entries, (s.cases.zipIdx.mapM fun p => p.1.sheet p.2) = .ok entries ↔
      List.Forall₂ Case.HasEntry s.cases entries := by
    intro entries
    rw [mapM_eq_ok_iff]
    simp only [Case.sheet_eq_ok_iff]
    exact forall₂_zipIdx_iff
  rw [write, sheet_eq]
  constructor
  · intro h
    cases hm : s.cases.zipIdx.mapM fun p => p.1.sheet p.2 with
    | error e =>
      rw [hm] at h
      cases h
    | ok entries =>
      rw [hm] at h
      exact ⟨entries, (hentries entries).1 hm, (Except.ok.inj h).symm⟩
  · rintro ⟨entries, hm, rfl⟩
    rw [(hentries entries).2 hm]
    rfl

/-- A document of entries is read, and has an element for each case, in order, that holds its data. -/
theorem exists_document_of_entries {entries : List Sheet} (h : List.Forall₂ Case.HasEntry s.cases entries) :
    ∃ d, Document.parse (Sheet.group Vocabulary.testData rootAttributes entries).document = .ok d ∧
      d.root.name = Vocabulary.testData ∧
      d.root.elements = d.root.childrenNamed Vocabulary.testCode ∧
      List.Forall₂ (fun c e => ∃ lines, Case.listedLines c = .ok lines ∧ c.Written lines e)
        s.cases (d.root.childrenNamed Vocabulary.testCode) := by
  have hwritable : ∀ entry ∈ entries, entry.Writable := by
    intro entry hentry
    obtain ⟨c, -, hc⟩ := exists_of_mem_right h hentry
    exact hc.writable
  obtain ⟨root, hroot, hparse⟩ := exists_parse_document
    (.group (show IsPlainName Vocabulary.testData by decide)
      (show ArePlainAttributes rootAttributes by decide) hwritable)
  refine ⟨_, hparse, hroot.name_eq, ?_⟩
  cases hroot with
  | group _ hchildren =>
    have hcases : List.Forall₂ (fun c e => ∃ lines, Case.listedLines c = .ok lines ∧ c.Written lines e)
        s.cases root.elements := by
      refine (forall₂_comp h hchildren).imp ?_
      rintro c e ⟨_, ⟨lines, hlines, rfl⟩, hshows⟩
      exact ⟨lines, hlines, Case.written_of_shows hshows⟩
    have hnamed : root.childrenNamed Vocabulary.testCode = root.elements := by
      apply List.filter_eq_self.2
      intro e he
      obtain ⟨c, -, lines, -, hwritten⟩ := exists_of_mem_right hcases he
      exact beq_iff_eq.2 (congrArg Name.localPart hwritten.settings.1)
    exact ⟨hnamed.symm, by rw [hnamed]; exact hcases⟩

/-- What is written is always read as a document, whatever characters the data consist of, and the
document holds the data of every case, in order. -/
theorem exists_document_of_write (h : s.write = .ok x) :
    ∃ d, Document.parse x = .ok d ∧ d.root.name = Vocabulary.testData ∧
      d.root.elements = d.root.childrenNamed Vocabulary.testCode ∧
      List.Forall₂ (fun c e => ∃ lines, Case.listedLines c = .ok lines ∧ c.Written lines e)
        s.cases (d.root.childrenNamed Vocabulary.testCode) := by
  obtain ⟨entries, hentries, rfl⟩ := write_eq_ok_iff.1 h
  exact exists_document_of_entries hentries

/-- A case whose texts look like markup, with a dozen violations and a blank line in its code. -/
def markupCase : Case where
  description := " <a> & ]]> ".toList
  source := "if a:\n \n  x]]>y \n".toList
  expectations := List.replicate 12 ⟨some "&lt;".toList, .anywhere⟩
  languageVersion := some "\n".toList

/-- Its count is written in decimal digits, and its code further in and without the blanks at its end. -/
theorem exists_document_of_write_markup :
    ∃ x d e, write ⟨[markupCase]⟩ = .ok x ∧ Document.parse x = .ok d ∧ d.root.name = Vocabulary.testData ∧
      d.root.elements = d.root.childrenNamed Vocabulary.testCode ∧
      List.Forall₂ (fun c e => ∃ lines, Case.listedLines c = .ok lines ∧ c.Written lines e)
        [markupCase] (d.root.childrenNamed Vocabulary.testCode) ∧
      d.root.childrenNamed Vocabulary.testCode = [e] ∧
      (e.childrenNamed Vocabulary.description).map Element.innerText = [" <a> & ]]> ".toList] ∧
      (e.childrenNamed Vocabulary.expectedProblems).map Element.innerText = [['1', '2']] ∧
      (e.childrenNamed Vocabulary.expectedMessages).map
        (fun list => (list.childrenNamed Vocabulary.message).map Element.innerText) =
          [List.replicate 12 "&lt;".toList] ∧
      (e.childrenNamed Vocabulary.code).map Element.innerText =
        ["\n            if a:\n\n              x]]>y\n        ".toList] := by
  obtain ⟨d, hd, hname, helements, hcases⟩ := exists_document_of_write (s := ⟨[markupCase]⟩) rfl
  obtain ⟨e, others, ⟨lines, -, hw⟩, hothers, hentries⟩ := List.forall₂_cons_left_iff.1 hcases
  rw [List.forall₂_nil_left_iff.1 hothers] at hentries
  refine ⟨_, d, e, rfl, hd, hname, helements, hcases, hentries, hw.description, hw.count.trans (by decide),
    hw.messages.trans (by decide), hw.code.trans (by decide)⟩

end Suite

end Fixture

end LintFixture
