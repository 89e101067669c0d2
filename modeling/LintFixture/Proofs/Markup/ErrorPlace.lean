import LintFixture.Proofs.Markup.Geometry

/-!
# Where errors point

A text that is no document is read up to some token, and there reading stops
(`Progress.exists_stop`). What was read by then is content with some elements still
open, so the error points at a part of the text that can be named (`PointsAt`): a
piece of markup, a run of text, the second complete element or the name in the start
tag that is still open (`Document.pointsAt_of_build`).
-/

namespace LintFixture.Markup

open Text (byteLength)
open Token (sources)

/-! ## Where reading stops -/

namespace Progress

/-- Reading stops in a state, at an offset, before the text that is left. -/
inductive Stops (s : Progress) (offset : Nat) : Text → Error → Prop
  /-- No token can be read. -/
  | unread {rest : Text} {fault : Fault} (hne : rest ≠ []) (h : Token.read rest = .error fault) :
    Stops s offset rest (.malformed offset fault)
  /-- The next token cannot be taken in. -/
  | untaken {rest after : Text} {token : Token} {e : Error} (hne : rest ≠ [])
    (h : Token.read rest = .ok (token, after)) (he : s.run offset [token] = .error e) : Stops s offset rest e
  /-- Nothing is left, and there is no root to hand out. -/
  | ended {e : Error} (h : s.finish = .error e) : Stops s offset [] e

/-- Reading that fails takes in some tokens and stops at what follows them. -/
theorem exists_stop {s : Progress} {offset : Nat} {t : Text} {e : Error} (h : s.resume offset t = .error e) :
    ∃ done rest last, Token.Reads done t rest ∧ s.run offset done = .ok last ∧
      last.Stops (offset + byteLength (sources done)) rest e := by
  fun_induction Token.readAll t generalizing s offset with
  | case1 =>
    rw [resume_nil] at h
    exact ⟨[], [], s, .nil [], rfl, .ended h⟩
  | case2 t ht fault hread =>
    rw [resume_of_read_error ht hread] at h
    cases h
    exact ⟨[], t, s, .nil t, rfl, .unread ht hread⟩
  | case3 t ht token rest hread _ _ _ ih =>
    rw [resume_eq_bind ht hread, ← bind_assoc, ← run_singleton] at h
    cases hrun : s.run offset [token] with
    | error own =>
      rw [hrun] at h
      cases h
      exact ⟨[], t, s, .nil t, rfl, .untaken ht hread hrun⟩
    | ok next =>
      rw [hrun] at h
      obtain ⟨done, behind, last, hreads, hdone, hstop⟩ := ih h
      refine ⟨token :: done, behind, last, .cons ht hread hreads, ?_, ?_⟩
      · rw [← List.singleton_append, run_append, hrun, Token.sources_singleton]
        exact hdone
      · rwa [Token.sources_cons, Text.byteLength_append, ← Nat.add_assoc]

theorem eq_of_ofComplete {frames : List Frame} {elements : List Element} {s : Progress}
    (h : ofComplete frames elements = .ok s) : s.frames = frames ∧ elements = s.root.toList := by
  rcases elements with _ | ⟨first, _ | ⟨second, others⟩⟩ <;> cases h <;> exact ⟨rfl, rfl⟩

/-- Tokens that were taken in leave the pieces outside and the open elements that they are. -/
theorem exists_pending_of_run {done : List Token} {s : Progress} (h : start.run 0 done = .ok s) :
    ∃ pieces, Pending done pieces s.frames ∧ pieces.filterMap Piece.element? = s.root.toList := by
  obtain ⟨hevents, hfailure⟩ := foldlM_ofTokens_eq_ok_iff.2 ⟨rfl, h⟩
  obtain ⟨pieces, frames, hp, -⟩ :=
    exists_pending_append (.outside (.nil 0)) hfailure (foldlM_checkEnd_of_step hevents)
  rw [List.nil_append] at hp
  rw [hp.run] at h
  obtain ⟨hframes, helements⟩ := eq_of_ofComplete h
  exact ⟨pieces, hframes ▸ hp, helements⟩

/-- An element is one too many only outside of all others, behind another one. -/
theorem complete_eq_error_iff {frames : List Frame} {root : Option Element} {e : Element} {error : Error} :
    complete frames root e = .error error ↔ frames = [] ∧ (∃ first, root = some first) ∧ error = .secondRoot e.span := by
  unfold complete
  cases frames with
  | cons parent outer => simp
  | nil => cases root <;> simp [eq_comm]

end Progress

/-! ## Faults at the start of markup -/

/-- A fault that is blamed on where a piece of markup begins. -/
def Fault.isAtStart : Fault → Bool
  | .text _ | .namelessDoctype => false
  | _ => true

theorem Token.isAtStart_of_readDeclaration {t : Text} {fault : Fault} (h : readDeclaration t = .error fault) :
    fault.isAtStart = true := by
  unfold readDeclaration at h
  repeat' split at h
  all_goals first | cases h; rfl | cases h

theorem Token.isAtStart_of_readMarkup {t : Text} {fault : Fault} (h : readMarkup t = .error fault) :
    fault.isAtStart = true := by
  unfold readMarkup at h
  split at h
  · exact isAtStart_of_readDeclaration h
  all_goals
    repeat' split at h
    all_goals first | cases h; rfl | cases h

/-- A run of text can always be read, so what cannot be read begins with markup. -/
theorem Token.exists_of_read_error {t : Text} {fault : Fault} (h : read t = .error fault) :
    (∃ rest, t = '<' :: rest) ∧ fault.isAtStart = true := by
  unfold read at h
  split at h
  · exact ⟨⟨_, rfl⟩, isAtStart_of_readMarkup h⟩
  · cases h

theorem isAtStart_of_readAttributes {base : Nat} {seen : List (Text × Nat)} {here : Place} {fault : Fault}
    (h : readAttributes base seen here = .error fault) : fault.isAtStart = true := by
  fun_induction readAttributes base seen here with
  | case1 => cases h; rfl
  | case2 => cases h
  | case3 => cases h; rfl
  | case4 _ _ _ _ _ _ _ ih =>
    obtain hlater | ⟨_, -, hlater⟩ := bind_eq_error_iff.1 h
    · exact ih hlater
    · cases hlater

theorem isAtStart_of_tagRead {base : Nat} {content : Text} {fault : Fault} (h : Tag.read base content = .error fault) :
    fault.isAtStart = true := by
  obtain hattributes | ⟨_, -, hlater⟩ := bind_eq_error_iff.1 h
  · exact isAtStart_of_readAttributes hattributes
  · cases hlater

/-! ## The parts that errors point at -/

/-- What an error points at. By then the tokens `done` have been read off the text, so an offset is the number of bytes
of their sources. -/
inductive PointsAt (t : Text) : Error → Prop
  /-- The angle bracket that begins a piece of markup. -/
  | markup {done : List Token} {rest : Text} {fault : Fault} (reads : Token.Reads done t ('<' :: rest))
    (kind : fault.isAtStart = true) : PointsAt t (.malformed (byteLength (sources done)) fault)
  /-- The angle bracket that ends a document type without a name. -/
  | doctypeEnd {done : List Token} {keyword body rest : Text}
    (reads : Token.Reads (done ++ [.doctype keyword body]) t rest) (nameless : body.all isGap = true) :
    PointsAt t (.malformed (byteLength (sources done ++ ('<' :: '!' :: keyword ++ body))) .namelessDoctype)
  /-- The first character of a run of text. -/
  | run {done : List Token} {chars rest : Text} {fault : ReferenceFault}
    (reads : Token.Reads (done ++ [.run chars]) t rest) (nonempty : chars ≠ []) (faulty : unescape chars = .error fault) :
    PointsAt t (.malformed (byteLength (sources done)) (.text fault))
  /-- The second complete element outside of all others. -/
  | secondRoot {before own : List Token} {rest : Text} {pieces inner : List Piece} {first second : Element}
    (reads : Token.Reads (before ++ own) t rest) (outside : Content 0 before pieces)
    (roots : pieces.filterMap Piece.element? = [first])
    (written : Written (byteLength (sources before)) own inner second)
    (slice : second.span.slice? t = some (sources own)) : PointsAt t (.secondRoot second.span)
  /-- The whole name in the innermost start tag that is still open when all tokens are read. -/
  | unclosed {tokens : List Token} {pieces : List Piece} {frame : Frame} {outer : List Frame}
    (reads : Token.readAll t = (tokens, none)) (opened : Pending tokens pieces (frame :: outer))
    (slice : frame.tag.nameSpan.slice? t = some frame.tag.name.text) :
    PointsAt t (.unclosed frame.tag.name.localPart frame.tag.nameSpan)

/-- The name of an open element lies where its start tag is written. -/
theorem Pending.nameSpan_lies {done : List Token} {pieces : List Piece} {frame : Frame} {outer : List Frame}
    (h : Pending done pieces (frame :: outer)) (rest : Text) :
    frame.tag.nameSpan.IsIn (sources done ++ rest) ∧
      frame.tag.nameSpan.slice? (sources done ++ rest) = some frame.tag.name.text := by
  cases h with
  | @inside before inside content tag _ inner _ _ hread _ =>
    have hfront : byteLength (sources before ++ ['<']) = byteLength (sources before) + 1 := by
      rw [Text.byteLength_append]
      rfl
    obtain ⟨-, hslice, hspans⟩ :=
      Tag.lies_of_read (sources before ++ ['<']) (['>'] ++ sources inside ++ rest) (by rwa [hfront])
    have ht : sources (before ++ .openTag content :: inside) ++ rest =
        (sources before ++ ['<']) ++ (content ++ (['>'] ++ sources inside ++ rest)) := by
      simp [Token.source]
    rw [ht]
    exact ⟨hspans _ List.mem_cons_self, hslice⟩

theorem Written.covers {before own : List Token} {inner : List Piece} {e : Element}
    (h : Written (byteLength (sources before)) own inner e) (rest : Text) :
    e.span.Covers 0 (sources (before ++ own) ++ rest) (sources own) := by
  obtain ⟨_, _, _, -, -, -, hspan, -⟩ := h.exists_start
  exact ⟨sources before, rest, by rw [Token.sources_append], by rw [hspan, Nat.zero_add]⟩

/-- An offset between two parts of a text is one of its places. -/
theorem Span.isIn_between (front back : Text) :
    Span.IsIn ⟨byteLength front, byteLength front⟩ (front ++ back) := by
  have hcovers : Span.Covers ⟨byteLength front, byteLength front⟩ 0 (front ++ back) [] :=
    ⟨front, back, by rw [List.append_nil], by simp⟩
  exact hcovers.isIn

namespace PointsAt

variable {t : Text} {e : Error}

/-- What an error points at lies in the text. -/
theorem exists_span (h : PointsAt t e) : ∃ span, e.span? = some span ∧ span.IsIn t := by
  cases h with
  | @markup done rest _ reads =>
    refine ⟨_, rfl, ?_⟩
    rw [reads.eq_append]
    exact Span.isIn_between (sources done) ('<' :: rest)
  | @doctypeEnd done keyword body rest reads =>
    refine ⟨_, rfl, ?_⟩
    have ht : t = (sources done ++ ('<' :: '!' :: keyword ++ body)) ++ '>' :: rest := by
      rw [reads.eq_append]
      simp [Token.source]
    rw [ht]
    exact Span.isIn_between _ ('>' :: rest)
  | @run done chars rest _ reads =>
    refine ⟨_, rfl, ?_⟩
    rw [reads.eq_append, Token.sources_append, List.append_assoc]
    exact Span.isIn_between (sources done) (sources [.run chars] ++ rest)
  | @secondRoot _ _ rest _ _ _ _ reads _ _ written =>
    refine ⟨_, rfl, ?_⟩
    rw [reads.eq_append]
    exact (written.covers rest).isIn
  | unclosed reads opened =>
    refine ⟨_, rfl, ?_⟩
    rw [(Token.reads_of_readAll reads).eq_append]
    exact (opened.nameSpan_lies []).1

/-- A token that means nothing is pointed at. -/
theorem of_event {done : List Token} {token : Token} {rest after : Text} (reads : Token.Reads done t rest)
    (hne : rest ≠ []) (hread : Token.read rest = .ok (token, after))
    (h : token.event (byteLength (sources done)) = .error e) : PointsAt t e := by
  have hmore : Token.Reads (done ++ [token]) t after :=
    Token.reads_append_iff.2 ⟨rest, reads, .cons hne hread (.nil after)⟩
  have hsource : rest = token.source ++ after := Token.eq_of_read hread
  have htag : ∀ {content : Text} {fault : Fault}, token.tagContent? = some content →
      Tag.read (byteLength (sources done) + 1) content = .error fault →
      PointsAt t (.malformed (byteLength (sources done)) fault) := by
    intro content fault hcontent hfault
    obtain ⟨last, hlast⟩ := Token.exists_source_eq hcontent
    rw [hsource, hlast] at reads
    exact .markup reads (isAtStart_of_tagRead hfault)
  cases token with
  | cdata | comment | instruction | closeTag => cases h
  | run chars =>
    simp only [Token.event] at h
    split at h
    · cases h
    · next fault hfault =>
      cases h
      exact .run hmore (Token.source_ne_nil_of_read hne hread) hfault
  | doctype keyword body =>
    simp only [Token.event] at h
    split at h
    · next hbody =>
      have hposition : byteLength (sources done) + byteLength (Token.doctype keyword body).source - 1 =
          byteLength (sources done ++ ('<' :: '!' :: keyword ++ body)) := by
        have hbracket : byteLength ['>'] = 1 := rfl
        rw [Token.source, Text.byteLength_append, hbracket, ← Nat.add_assoc, Nat.add_sub_cancel,
          ← Text.byteLength_append]
        rfl
      cases h
      rw [hposition]
      exact .doctypeEnd hmore hbody
    · cases h
  | openTag content | emptyTag content =>
    simp only [Token.event] at h
    split at h
    · cases h
    · next hfault =>
      cases h
      exact htag rfl hfault

/-- An element that is one too many is pointed at. -/
theorem of_complete {before own : List Token} {pieces inner : List Piece} {rest : Text} {first second : Element}
    (reads : Token.Reads (before ++ own) t rest) (opened : Pending before pieces [])
    (roots : pieces.filterMap Piece.element? = [first])
    (written : Written (byteLength (sources before)) own inner second) : PointsAt t (.secondRoot second.span) := by
  cases opened with
  | outside outside =>
    refine .secondRoot reads outside roots written ?_
    rw [reads.eq_append]
    exact (written.covers rest).slice?

/-- A token that means something the state has no room for is pointed at. -/
theorem of_takeIn {done : List Token} {token : Token} {rest after : Text} {event : Option Event} {s : Progress}
    (reads : Token.Reads done t rest) (hne : rest ≠ []) (hread : Token.read rest = .ok (token, after))
    (hrun : Progress.start.run 0 done = .ok s) (hevent : token.event (byteLength (sources done)) = .ok event)
    (h : s.takeIn event = .error e) : PointsAt t e := by
  have hmore : Token.Reads (done ++ [token]) t after :=
    Token.reads_append_iff.2 ⟨rest, reads, .cons hne hread (.nil after)⟩
  obtain ⟨pieces, opened, roots⟩ := Progress.exists_pending_of_run hrun
  obtain ⟨frames, root⟩ := s
  cases token with
  | comment | instruction =>
    cases hevent
    cases h
  | doctype keyword body =>
    simp only [Token.event] at hevent
    split at hevent <;> cases hevent
    cases h
  | cdata body =>
    cases hevent
    cases frames <;> cases h
  | run chars =>
    simp only [Token.event] at hevent
    split at hevent <;> cases hevent
    cases frames <;> cases h
  | openTag content =>
    simp only [Token.event] at hevent
    split at hevent <;> cases hevent
    cases h
  | emptyTag content =>
    simp only [Token.event] at hevent
    split at hevent <;> cases hevent
    next tag htag =>
    obtain ⟨rfl, ⟨first, rfl⟩, rfl⟩ := Progress.complete_eq_error_iff.1 h
    exact of_complete hmore opened roots (.empty htag)
  | closeTag content =>
    cases hevent
    have hopen : ∀ fault : Fault, fault.isAtStart = true →
        PointsAt t (.malformed (byteLength (sources done)) fault) := by
      intro fault hfault
      rw [Token.eq_of_read hread] at reads
      exact .markup reads hfault
    cases frames with
    | nil =>
      cases h
      exact hopen _ rfl
    | cons frame outer =>
      simp only [Progress.takeIn, Progress.step] at h
      split at h
      · next hname =>
        obtain ⟨rfl, ⟨first, rfl⟩, rfl⟩ := Progress.complete_eq_error_iff.1 h
        cases opened with
        | @inside before inside start tag _ inner _ outside htag hinside =>
          have written := Written.pair htag hinside hname.symm
          have hclosed : Frame.close ⟨tag, byteLength (sources before), (kept false inner).reverse⟩
              (byteLength (sources (before ++ .openTag start :: inside)) +
                byteLength (Token.closeTag content).source) =
              ⟨tag, ⟨byteLength (sources before), byteLength (sources before) +
                byteLength (sources (.openTag start :: (inside ++ [.closeTag content])))⟩, kept false inner⟩ := by
            simp [Frame.close, Nat.add_assoc]
          rw [hclosed]
          rw [List.append_assoc, List.cons_append] at hmore
          exact of_complete hmore outside roots written
      · cases h
        exact hopen _ rfl

/-- Where reading stops an error is pointed at, unless there is nothing to point at. -/
theorem of_stop {done : List Token} {rest : Text} {s : Progress} (reads : Token.Reads done t rest)
    (hrun : Progress.start.run 0 done = .ok s) (h : s.Stops (byteLength (sources done)) rest e) (hroot : e ≠ .noRoot) :
    PointsAt t e := by
  cases h with
  | unread hne hread =>
    obtain ⟨⟨more, rfl⟩, hfault⟩ := Token.exists_of_read_error hread
    exact .markup reads hfault
  | untaken hne hread htoken =>
    rw [Progress.run_singleton] at htoken
    obtain hevent | ⟨event, hevent, htaken⟩ := bind_eq_error_iff.1 htoken
    · exact of_event reads hne hread hevent
    · exact of_takeIn reads hne hread hrun hevent htaken
  | ended hfinish =>
    obtain ⟨pieces, opened, -⟩ := Progress.exists_pending_of_run hrun
    obtain ⟨frames, root⟩ := s
    cases frames with
    | nil =>
      cases root <;> cases hfinish
      exact absurd rfl hroot
    | cons frame outer =>
      cases hfinish
      refine .unclosed (reads.readAll_eq rfl) opened ?_
      rw [reads.eq_append]
      exact (opened.nameSpan_lies []).2

end PointsAt

/-! ## Main statement -/

/-- A text without a byte order mark that is no document, though not for want of an element, fails with an error whose
span lies in the text, on characters, and is that of the part the error points at. -/
theorem Document.pointsAt_of_build {t : Text} {fault : BuildFault} (hmark : t.head? ≠ some '\uFEFF')
    (h : Document.build t = .error fault) (hroot : fault ≠ .reported .noRoot) :
    ∃ e span, fault = .reported e ∧ Document.parse t = .error e ∧ fault.span? = some span ∧ span.IsIn t ∧
      PointsAt t e := by
  rw [Document.build_eq] at h
  cases hparse : Document.parse t with
  | ok d =>
    rw [hparse] at h
    cases h
  | error e =>
    rw [hparse] at h
    cases h
    rw [Document.parse_eq, dropMark_eq_self hmark] at hparse
    cases hresume : Progress.start.resume 0 t with
    | ok root =>
      rw [hresume] at hparse
      cases hparse
    | error own =>
      rw [hresume] at hparse
      cases hparse
      obtain ⟨done, rest, s, reads, hrun, hstop⟩ := Progress.exists_stop hresume
      rw [Nat.zero_add] at hstop
      have hpoints := PointsAt.of_stop reads hrun hstop fun hnone => hroot (congrArg _ hnone)
      obtain ⟨span, hspan, hin⟩ := hpoints.exists_span
      exact ⟨e, span, rfl, rfl, hspan, hin, hpoints⟩

/-- Two elements outside of all others, with characters of two bytes in the first. -/
def Document.twoRootsText : Text := "<é>ü</é><b/>".toList

theorem Document.pointsAt_of_build_two_roots :
    twoRootsText.head? ≠ some '\uFEFF' ∧
      Document.build twoRootsText = .error (.reported (.secondRoot ⟨11, 15⟩)) ∧
      ∃ e span, BuildFault.reported (.secondRoot ⟨11, 15⟩) = .reported e ∧
        Document.parse twoRootsText = .error e ∧
        (BuildFault.reported (.secondRoot ⟨11, 15⟩)).span? = some span ∧ span.IsIn twoRootsText ∧
        PointsAt twoRootsText e := by
  have hbuild : Document.build twoRootsText = .error (.reported (.secondRoot ⟨11, 15⟩)) :=
    (map_eq_error_iff (f := Document.span)).1 (by decide +kernel)
  exact ⟨by decide, hbuild, Document.pointsAt_of_build (by decide) hbuild (by simp)⟩

end LintFixture.Markup
