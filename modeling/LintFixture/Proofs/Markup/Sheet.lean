import LintFixture.Proofs.Markup.Progress

/-!
# A written sheet is read back

Reading the text of a sheet completes one element that shows it: the same names,
attributes and texts, and the children in order (`resume_write`). The breaks that
layout puts between elements end up beside them and in no text. So the document of
a sheet is read, and its root shows the sheet (`exists_parse_document`).
-/

namespace LintFixture.Markup

/-- The element has the written name and attributes. -/
def Element.HasTag (e : Element) (name : Text) (attributes : List (Text × Text)) : Prop :=
  e.tag.name = Name.ofText name ∧
    e.tag.attributes.map (fun a => (a.name, a.value)) = attributes.map fun a => (Name.ofText a.1, a.2)

namespace Sheet

/-- A sheet of plain names, none of whose sections ends early. -/
inductive Writable : Sheet → Prop
  | text {name content : Text} {attributes : List (Text × Text)} (hn : IsPlainName name)
    (ha : ArePlainAttributes attributes) : Writable (.text name attributes content)
  | cdata {name : Text} {attributes : List (Text × Text)} {parts : List Text} (hn : IsPlainName name)
    (ha : ArePlainAttributes attributes) (hp : ∀ part ∈ parts, ¬ sectionEnd <:+: part) :
    Writable (.cdata name attributes parts)
  | group {name : Text} {attributes : List (Text × Text)} {children : List Sheet} (hn : IsPlainName name)
    (ha : ArePlainAttributes attributes) (hc : ∀ child ∈ children, Writable child) :
    Writable (.group name attributes children)

/-- The element has the names, attributes and texts of the sheet, all the way down. -/
inductive Shows : Sheet → Element → Prop
  | text {name content : Text} {attributes : List (Text × Text)} {e : Element}
    (ht : e.HasTag name attributes) (he : e.elements = []) (hc : e.innerText = content) :
    Shows (.text name attributes content) e
  | cdata {name : Text} {attributes : List (Text × Text)} {parts : List Text} {e : Element}
    (ht : e.HasTag name attributes) (he : e.elements = []) (hc : e.innerText = parts.flatten) :
    Shows (.cdata name attributes parts) e
  | group {name : Text} {attributes : List (Text × Text)} {children : List Sheet} {e : Element}
    (ht : e.HasTag name attributes) (hc : List.Forall₂ Shows children e.elements) :
    Shows (.group name attributes children) e

end Sheet

/-! ## Layout -/

theorem not_mem_lineBreak (depth : Nat) {c : Char} (hn : c ≠ '\n') (hs : c ≠ ' ') : c ∉ Sheet.lineBreak depth := by
  rw [Sheet.lineBreak, List.mem_cons, not_or]
  exact ⟨hn, fun hc => hs (List.eq_of_mem_replicate hc)⟩

/-- A text without references resolves to itself. -/
theorem Reference.expand_of_not_mem {t : Text} (offset : Nat) (h : '&' ∉ t) : expand offset t = .ok t := by
  induction t generalizing offset with
  | nil => rw [expand]
  | cons c t ih =>
    rw [List.mem_cons, not_or] at h
    rw [expand_cons (Ne.symm h.1), ih _ h.2]
    rfl

namespace Progress

theorem resume_lineBreak {s : Progress} {rest : Text} (depth offset : Nat)
    (hrest : ∀ c, rest.head? = some c → c = '<') :
    s.resume offset (Sheet.lineBreak depth ++ rest) =
      s.takeIn (some (.text ⟨Sheet.lineBreak depth, ⟨offset, offset + Text.byteLength (Sheet.lineBreak depth)⟩⟩))
        >>= fun next => next.resume (offset + Text.byteLength (Sheet.lineBreak depth)) rest :=
  resume_run offset rest (List.cons_ne_nil _ _) (not_mem_lineBreak depth (by decide) (by decide))
    (Reference.expand_of_not_mem 0 (not_mem_lineBreak depth (by decide) (by decide))) hrest

/-- A break inside an open element adds no element. -/
theorem resume_layout (frame : Frame) (outer : List Frame) (root : Option Element) (depth offset : Nat)
    (rest : Text) :
    ∃ next : Frame, next.tag = frame.tag ∧ next.elements = frame.elements ∧
      resume ⟨frame :: outer, root⟩ offset (Sheet.lineBreak depth ++ '<' :: rest) =
        resume ⟨next :: outer, root⟩ (offset + Text.byteLength (Sheet.lineBreak depth)) ('<' :: rest) :=
  ⟨frame.addText _, Frame.tag_addText .., Frame.elements_addText ..,
    resume_lineBreak depth offset fun _ h => (Option.some.inj h).symm⟩

/-- Before markup, the content leaves an open element with elements and text as described. -/
def Fills (content : Text) (described : List Element → Text → Prop) : Prop :=
  ∀ (frame : Frame) (outer : List Frame) (root : Option Element) (offset : Nat) (rest : Text),
    frame.children = [] →
    ∃ next : Frame, next.tag = frame.tag ∧ described next.elements next.innerText ∧
      resume ⟨frame :: outer, root⟩ offset (content ++ '<' :: rest) =
        resume ⟨next :: outer, root⟩ (offset + Text.byteLength content) ('<' :: rest)

/-- The sections of an element are put together as they stand. -/
theorem resume_sections {parts : List Text} (frame : Frame) (outer : List Frame) (root : Option Element)
    (offset : Nat) (rest : Text) (h : ∀ part ∈ parts, ¬ sectionEnd <:+: part) :
    ∃ next : Frame, next.tag = frame.tag ∧ next.elements = frame.elements ∧
      next.innerText = frame.innerText ++ parts.flatten ∧
      resume ⟨frame :: outer, root⟩ offset (parts.flatMap Sheet.cdataSection ++ rest) =
        resume ⟨next :: outer, root⟩ (offset + Text.byteLength (parts.flatMap Sheet.cdataSection)) rest := by
  induction parts generalizing frame offset with
  | nil => exact ⟨frame, rfl, rfl, by simp, rfl⟩
  | cons part parts ih =>
    rw [List.forall_mem_cons] at h
    obtain ⟨next, htag, helements, htext, hresume⟩ := ih (frame.add (.text ⟨part, _⟩))
      (offset + Text.byteLength (Sheet.cdataSection part)) h.2
    refine ⟨next, htag, by simpa using helements, by simpa using htext, ?_⟩
    rw [List.flatMap_cons, List.append_assoc, resume_cdataSection offset _ h.1, hresume, Text.byteLength_append,
      Nat.add_assoc]

theorem fills_sections {parts : List Text} (h : ∀ part ∈ parts, ¬ sectionEnd <:+: part) :
    Fills (parts.flatMap Sheet.cdataSection) fun elements text => elements = [] ∧ text = parts.flatten := by
  intro frame outer root offset rest hf
  obtain ⟨next, htag, helements, htext, hresume⟩ := resume_sections frame outer root offset ('<' :: rest) h
  refine ⟨next, htag, ⟨?_, ?_⟩, hresume⟩
  · rw [helements, Frame.elements, hf]
    rfl
  · rw [htext, Frame.innerText, hf]
    rfl

/-- Escaped text becomes the text of the element, also when it is blank. -/
theorem fills_escape (content : Text) :
    Fills (escape content) fun elements text => elements = [] ∧ text = content := by
  intro frame outer root offset rest hf
  have helements : frame.elements = [] := by rw [Frame.elements, hf]; rfl
  have htext : frame.innerText = [] := by rw [Frame.innerText, hf]; rfl
  by_cases hne : escape content = []
  · have hc : content = [] := by
      have hread := unescape_escape content
      rw [hne, show unescape [] = .ok [] from unescape_escape []] at hread
      exact (Except.ok.inj hread).symm
    refine ⟨frame, rfl, ⟨helements, htext.trans hc.symm⟩, ?_⟩
    rw [hne]
    rfl
  · have hlt : '<' ∉ escape content := not_mem_escape (by decide) (by decide) content
    -- text at the start of an element follows no element, so it counts also when it is blank
    have hadd : ∀ run, frame.addText run = frame.add (.text run) := by
      intro run
      simp [Frame.addText, Frame.followsElement, hf]
    refine ⟨frame.add (.text ⟨content, ⟨offset, offset + Text.byteLength (escape content)⟩⟩), rfl, ⟨?_, ?_⟩, ?_⟩
    · rw [Frame.elements_add_text, helements]
    · rw [Frame.innerText_add_text, htext]
      rfl
    · rw [resume_run offset _ hne hlt (unescape_escape content) (by rintro _ ⟨⟩; rfl)]
      simp only [takeIn, step, hadd]
      rfl

end Progress

/-! ## Whole sheets -/

theorem Sheet.exists_write_eq_cons (depth : Nat) (sheet : Sheet) : ∃ t, sheet.write depth = '<' :: t := by
  cases sheet <;> exact ⟨_, rfl⟩

namespace Progress

/-- An element is completed with what its content makes of it. -/
theorem resume_element {name content : Text} {attributes : List (Text × Text)}
    {described : List Element → Text → Prop} (hn : IsPlainName name) (ha : ArePlainAttributes attributes)
    (hc : Fills content described) (frames : List Frame) (root : Option Element) (offset : Nat) (rest : Text) :
    ∃ e : Element, e.HasTag name attributes ∧ described e.elements e.innerText ∧
      resume ⟨frames, root⟩ offset
          (Sheet.openingTag name attributes ++ content ++ Sheet.closingTag name ++ rest) =
        complete frames root e >>= fun next =>
          next.resume (offset + Text.byteLength (Sheet.openingTag name attributes ++ content
            ++ Sheet.closingTag name)) rest := by
  obtain ⟨tag, hname, hattributes, hopen⟩ := resume_openingTag offset hn ha
  obtain ⟨next, htag, hdescribed, hcontent⟩ := hc ⟨tag, offset, []⟩ frames root
    (offset + Text.byteLength (Sheet.openingTag name attributes)) ('/' :: name ++ ['>'] ++ rest) rfl
  replace htag : next.tag = tag := htag
  have hclose := resume_closingTag frames root
    (offset + Text.byteLength (Sheet.openingTag name attributes) + Text.byteLength content) rest hn
    (by rw [htag, hname])
  simp only [Nat.add_assoc, ← Text.byteLength_append] at hclose
  refine ⟨next.close (offset + Text.byteLength (Sheet.openingTag name attributes ++ content
    ++ Sheet.closingTag name)), ⟨?_, ?_⟩, hdescribed, ?_⟩
  · rw [← hname, ← htag]
    rfl
  · rw [← hattributes, ← htag]
    rfl
  · rw [List.append_assoc, List.append_assoc, hopen]
    refine hcontent.trans ?_
    simp only [Nat.add_assoc, ← Text.byteLength_append]
    exact hclose

mutual

/-- Reading a written sheet completes one element that shows it. -/
theorem resume_write {sheet : Sheet} (h : sheet.Writable) (depth : Nat) (frames : List Frame)
    (root : Option Element) (offset : Nat) (rest : Text) :
    ∃ e, sheet.Shows e ∧
      resume ⟨frames, root⟩ offset (sheet.write depth ++ rest) =
        complete frames root e >>= fun next => next.resume (offset + Text.byteLength (sheet.write depth)) rest := by
  match sheet, h with
  | .text name attributes content, .text hn ha =>
    obtain ⟨e, htag, ⟨helements, htext⟩, hresume⟩ :=
      resume_element hn ha (fills_escape content) frames root offset rest
    exact ⟨e, .text htag helements htext, hresume⟩
  | .cdata name attributes parts, .cdata hn ha hp =>
    obtain ⟨e, htag, ⟨helements, htext⟩, hresume⟩ :=
      resume_element hn ha (fills_sections hp) frames root offset rest
    exact ⟨e, .cdata htag helements htext, hresume⟩
  | .group name attributes children, .group hn ha hc =>
    -- the break before the end tag is layout like those before the children
    have hfills : Fills (Sheet.writeAll (depth + 1) children ++ Sheet.lineBreak depth) fun elements _ =>
        List.Forall₂ Sheet.Shows children elements := by
      intro frame outer root offset rest hf
      obtain ⟨next, es, htag, hshows, helements, hresume⟩ := resume_writeAll hc (depth + 1) frame outer root offset
        (Sheet.lineBreak depth ++ '<' :: rest)
      obtain ⟨last, hlast, hnone, hbreak⟩ := resume_layout next outer root depth
        (offset + Text.byteLength (Sheet.writeAll (depth + 1) children)) rest
      refine ⟨last, hlast.trans htag, ?_, ?_⟩
      · rw [hnone, helements, Frame.elements, hf]
        exact hshows
      · rw [List.append_assoc, hresume, hbreak, Text.byteLength_append, Nat.add_assoc]
    obtain ⟨e, htag, hshows, hresume⟩ := resume_element hn ha hfills frames root offset rest
    refine ⟨e, .group htag hshows, ?_⟩
    simpa only [Sheet.write, List.append_assoc] using hresume

/-- Reading the sheets of a group adds an element for each to the open one. -/
theorem resume_writeAll {sheets : List Sheet} (h : ∀ sheet ∈ sheets, sheet.Writable) (depth : Nat) (frame : Frame)
    (outer : List Frame) (root : Option Element) (offset : Nat) (rest : Text) :
    ∃ (next : Frame) (es : List Element), next.tag = frame.tag ∧ List.Forall₂ Sheet.Shows sheets es ∧
      next.elements = frame.elements ++ es ∧
      resume ⟨frame :: outer, root⟩ offset (Sheet.writeAll depth sheets ++ rest) =
        resume ⟨next :: outer, root⟩ (offset + Text.byteLength (Sheet.writeAll depth sheets)) rest := by
  match sheets with
  | [] => exact ⟨frame, [], rfl, .nil, (List.append_nil _).symm, rfl⟩
  | sheet :: sheets =>
    rw [List.forall_mem_cons] at h
    obtain ⟨t, ht⟩ := sheet.exists_write_eq_cons depth
    -- the break, the sheet, the others
    obtain ⟨next, htag, helements, hbreak⟩ := resume_layout frame outer root depth offset
      (t ++ (Sheet.writeAll depth sheets ++ rest))
    obtain ⟨e, he, hwrite⟩ := resume_write h.1 depth (next :: outer) root
      (offset + Text.byteLength (Sheet.lineBreak depth)) (Sheet.writeAll depth sheets ++ rest)
    obtain ⟨last, es, hlast, hes, hothers, hall⟩ := resume_writeAll h.2 depth (next.add (.element e)) outer root
      (offset + Text.byteLength (Sheet.lineBreak depth) + Text.byteLength (sheet.write depth)) rest
    refine ⟨last, e :: es, hlast.trans htag, .cons he hes, ?_, ?_⟩
    · rw [hothers, Frame.elements_add_element, helements, List.append_assoc, List.singleton_append]
    · rw [ht, List.cons_append] at hwrite
      rw [Sheet.writeAll, List.append_assoc, List.append_assoc, ht, List.cons_append, hbreak, hwrite]
      simp only [complete, bind, Except.bind]
      rw [← ht, hall]
      simp only [Text.byteLength_append, Nat.add_assoc]

end

end Progress

/-! ## Documents -/

/-- The declaration a document begins with, between its marks. -/
def declaration : Text := "xml version=\"1.0\" encoding=\"UTF-8\"".toList

theorem Sheet.document_eq (root : Sheet) :
    document root =
      ['<', '?'] ++ declaration ++ ['?', '>'] ++ (lineBreak 0 ++ (root.write 0 ++ ['\n'])) := by
  have htext : "<?xml version=\"1.0\" encoding=\"UTF-8\"?>".toList = ['<', '?'] ++ declaration ++ ['?', '>'] := by
    decide +kernel
  unfold document
  rw [htext, List.append_assoc, List.append_assoc]

theorem read_declaration (rest : Text) :
    Token.read (['<', '?'] ++ declaration ++ ['?', '>'] ++ rest) = .ok (.instruction declaration, rest) := by
  have hcut : Text.cut? ['?', '>'] (declaration ++ ['?', '>'] ++ rest) = some (declaration, rest) := by
    rw [List.append_assoc]
    exact Text.cut?_append_of_not_mem ['>'] rest (by decide)
  exact Token.read_instruction (by rintro ⟨⟩) hcut

/-- The document of a sheet is read, and its root shows the sheet. -/
theorem exists_parse_document {root : Sheet} (h : root.Writable) :
    ∃ e, root.Shows e ∧ Document.parse root.document = .ok ⟨e, ⟨0, Text.byteLength root.document⟩⟩ := by
  obtain ⟨t, ht⟩ := root.exists_write_eq_cons 0
  have hmark : dropMark root.document = root.document := rfl
  obtain ⟨e, he, hwrite⟩ := Progress.resume_write h 0 [] none
    (0 + Text.byteLength (Token.instruction declaration).source + Text.byteLength (Sheet.lineBreak 0)) ['\n']
  refine ⟨e, he, ?_⟩
  have hresume : Progress.start.resume 0 root.document = .ok e := by
    rw [Sheet.document_eq, Progress.resume_of_read (by simp) (read_declaration _) rfl]
    simp only [Progress.takeIn, bind, Except.bind]
    rw [Progress.resume_lineBreak 0 _ (by rintro _ h; rw [ht] at h; exact (Option.some.inj h).symm)]
    refine hwrite.trans ?_
    have hend := Progress.resume_run (s := ⟨[], some e⟩)
      (0 + Text.byteLength (Token.instruction declaration).source + Text.byteLength (Sheet.lineBreak 0)
        + Text.byteLength (root.write 0)) []
      (List.cons_ne_nil '\n' []) (by decide) (Reference.expand_of_not_mem 0 (by decide)) (by rintro _ ⟨⟩)
    exact hend.trans (Progress.resume_nil _ _)
  rw [Document.parse_eq, hmark, hresume]
  rfl

end LintFixture.Markup
