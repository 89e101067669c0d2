import LintFixture.Proofs.Markup.Alike
import LintFixture.Proofs.Markup.Geometry

/-!
# Padding

Blank text, comments and instructions (`Padding`) make no elements. Put between two
pieces of markup, they are read as tokens of their own or go into the run of text
there (`Padding.exists_reads`), and all that they change is the text of the innermost
open element. Where its name is loose, or no element is open, the documents with and
without them are alike (`Between.agree_resume`).
-/

namespace LintFixture.Markup

open Text (byteLength)
open Token (sources)

/-! ## What is put in -/

/-- Blank text, comments and instructions, each closed by the first mark that ends it, in any order. -/
inductive Padding : Text → Prop
  | nil : Padding []
  | blank {c : Char} {w : Text} (hc : Text.isBlank c = true) (rest : Padding w) : Padding (c :: w)
  | comment {body w : Text} (hbody : Text.cut? ['-', '-', '>'] (body ++ ['-', '-', '>']) = some (body, []))
    (rest : Padding w) : Padding ((Token.comment body).source ++ w)
  | instruction {body w : Text} (hfirst : body.head? ≠ some '>')
    (hbody : Text.cut? ['?', '>'] (body ++ ['?', '>']) = some (body, [])) (rest : Padding w) :
    Padding ((Token.instruction body).source ++ w)

theorem padding_comment {body : Text}
    (hbody : Text.cut? ['-', '-', '>'] (body ++ ['-', '-', '>']) = some (body, [])) :
    Padding (Token.comment body).source := by
  simpa using Padding.comment hbody .nil

/-- A byte order mark is no padding. -/
theorem Padding.head?_append_ne {w t : Text} (h : Padding w) (ht : t.head? ≠ some '\uFEFF') :
    (w ++ t).head? ≠ some '\uFEFF' := by
  cases h with
  | nil => exact ht
  | blank hc =>
    rintro ⟨⟩
    cases hc
  | comment => simp [Token.source]
  | instruction => simp [Token.source]

namespace Token

/-- The token adds no more than text. -/
def IsQuiet (token : Token) : Prop :=
  token.isSilent = true ∨ ∃ chars text, token = .run chars ∧ unescape chars = .ok text

theorem isQuiet_run {chars text : Text} (h : unescape chars = .ok text) : (Token.run chars).IsQuiet :=
  .inr ⟨chars, text, rfl, h⟩

/-! ## Reading it -/

/-- A text before markup is one run, if there is any. -/
theorem exists_reads_run {chars text back : Text} (hchars : '<' ∉ chars) (htext : unescape chars = .ok text)
    (hback : ∀ c, back.head? = some c → c = '<') :
    ∃ tokens, Reads tokens (chars ++ back) back ∧ ∀ token ∈ tokens, token.IsQuiet := by
  by_cases hne : chars = []
  · subst hne
    exact ⟨[], .nil back, List.forall_mem_nil _⟩
  · refine ⟨[.run chars], .cons (by simp [hne]) (read_run hne hchars hback) (.nil back), ?_⟩
    exact List.forall_mem_singleton.2 (isQuiet_run htext)

/-- A text, a piece of markup that stands for nothing, and what follows them. -/
theorem exists_reads_silent {chars text rest back : Text} {token : Token} {more : List Token} (hchars : '<' ∉ chars)
    (htext : unescape chars = .ok text) (htoken : token.isSilent = true) (hmarkup : token.source.head? = some '<')
    (hread : read (token.source ++ rest) = .ok (token, rest)) (hmore : Reads more rest back)
    (hquiet : ∀ token ∈ more, token.IsQuiet) :
    ∃ tokens, Reads tokens (chars ++ (token.source ++ rest)) back ∧ ∀ token ∈ tokens, token.IsQuiet := by
  obtain ⟨source, hsource⟩ := List.head?_eq_some_iff.1 hmarkup
  obtain ⟨front, hfront, hfrontQuiet⟩ := @exists_reads_run chars text (token.source ++ rest) hchars htext
    (by simp [hsource, eq_comm])
  refine ⟨front ++ token :: more, reads_append_iff.2 ⟨_, hfront, .cons (by simp [hsource]) hread hmore⟩, ?_⟩
  rw [List.forall_mem_append, List.forall_mem_cons]
  exact ⟨hfrontQuiet, .inl htoken, hquiet⟩

end Token

theorem ne_of_isBlank {c d : Char} (hc : Text.isBlank c = true) (hd : Text.isBlank d = false) : c ≠ d := by
  rintro rfl
  rw [hd] at hc
  cases hc

theorem unescape_nil : unescape [] = .ok [] := by rw [unescape, Reference.expand]

theorem unescape_blank {c : Char} (hc : Text.isBlank c = true) : unescape [c] = .ok [c] := by
  rw [unescape, Reference.expand_cons (ne_of_isBlank hc rfl), Reference.expand]
  rfl

/-- Between text and markup, padding adds no more than text. -/
theorem Padding.exists_reads {w left right s t back : Text} (hw : Padding w) (hleft : '<' ∉ left)
    (hs : unescape left = .ok s) (hright : '<' ∉ right) (ht : unescape right = .ok t)
    (hback : ∀ c, back.head? = some c → c = '<') :
    ∃ tokens, Token.Reads tokens (left ++ (w ++ (right ++ back))) back ∧ ∀ token ∈ tokens, token.IsQuiet := by
  -- the blanks met since the last markup go into one run with the text before them
  induction hw generalizing left s with
  | nil =>
    rw [List.nil_append, ← List.append_assoc]
    exact Token.exists_reads_run (by simp [hleft, hright]) (unescape_append hs ht) hback
  | @blank c w hc _ ih =>
    have hlt : '<' ∉ left ++ [c] := by simp [hleft, (ne_of_isBlank hc (d := '<') rfl).symm]
    have hrest := ih hlt (unescape_append hs (unescape_blank hc))
    rwa [List.append_assoc, List.singleton_append] at hrest
  | @comment body w hbody _ ih =>
    obtain ⟨more, hmore, hquiet⟩ := ih List.not_mem_nil unescape_nil
    rw [List.append_assoc]
    refine Token.exists_reads_silent hleft hs rfl rfl (Token.read_comment ?_) hmore hquiet
    exact Text.cut?_of_cut? _ hbody
  | @instruction body w hfirst hbody _ ih =>
    obtain ⟨more, hmore, hquiet⟩ := ih List.not_mem_nil unescape_nil
    rw [List.append_assoc]
    refine Token.exists_reads_silent hleft hs rfl rfl (Token.read_instruction ?_ ?_) hmore hquiet
    · cases body with
      | nil => simp
      | cons c body => simpa using hfirst
    · exact Text.cut?_of_cut? _ hbody

/-! ## What is open -/

/-- The names of the open tags behind one more token, innermost first. -/
def Token.nest (opened : List Name) : Token → List Name
  | .openTag content => .ofText (content.takeWhile continuesName) :: opened
  | .closeTag _ => opened.tail
  | _ => opened

/-- The names of the tags that tokens leave open, innermost first. -/
def Token.opened (tokens : List Token) : List Name := tokens.foldl nest []

namespace Progress

variable {s next last : Progress} {n : Nat} {token : Token} {tokens : List Token}

theorem map_name_of_complete {frames : List Frame} {root : Option Element} {e : Element}
    (h : complete frames root e = .ok next) : next.frames.map (·.tag.name) = frames.map (·.tag.name) := by
  have htag := congrArg (List.map Tag.name) (map_tag_of_complete h)
  rwa [List.map_map, List.map_map] at htag

theorem map_name_of_takeIn {event : Option Event} (he : token.event n = .ok event) (h : s.takeIn event = .ok next) :
    next.frames.map (·.tag.name) = token.nest (s.frames.map (·.tag.name)) := by
  obtain ⟨frames, root⟩ := s
  cases token with
  | run chars =>
    simp only [Token.event] at he
    split at he <;> cases he
    cases frames <;> cases h <;> simp [Token.nest]
  | cdata body =>
    cases he
    cases frames <;> cases h <;> rfl
  | comment | instruction =>
    cases he
    cases h
    rfl
  | doctype keyword body =>
    simp only [Token.event] at he
    split at he <;> cases he
    cases h
    rfl
  | openTag content =>
    simp only [Token.event] at he
    split at he <;> cases he
    next hread =>
      obtain ⟨attributes, -, hread⟩ := bind_eq_ok_iff.1 hread
      cases hread
      cases h
      rfl
  | emptyTag content =>
    simp only [Token.event] at he
    split at he <;> cases he
    exact map_name_of_complete h
  | closeTag content =>
    cases he
    cases frames with
    | nil => cases h
    | cons f outer =>
      simp only [takeIn, step] at h
      split at h
      · exact map_name_of_complete h
      · cases h

/-- The open elements are those whose tags the tokens leave open. -/
theorem map_name_of_run (h : s.run n tokens = .ok last) :
    last.frames.map (·.tag.name) = tokens.foldl Token.nest (s.frames.map (·.tag.name)) := by
  induction tokens generalizing s n with
  | nil =>
    cases h
    rfl
  | cons token tokens ih =>
    rw [run] at h
    obtain ⟨event, he, h⟩ := bind_eq_ok_iff.1 h
    obtain ⟨next, hnext, h⟩ := bind_eq_ok_iff.1 h
    rw [ih h, List.foldl_cons, map_name_of_takeIn he hnext]

/-! ## What it changes -/

/-- All but the text of the innermost open element. -/
def outline (s : Progress) : Option (Tag × Nat × List Element) × List Frame × Option Element :=
  (s.frames.head?.map fun f => (f.tag, f.start, f.elements), s.frames.tail, s.root)

theorem run_quiet (h : ∀ token ∈ tokens, token.IsQuiet) (s : Progress) (n : Nat) :
    ∃ last, s.run n tokens = .ok last ∧ last.outline = s.outline := by
  induction tokens generalizing s n with
  | nil => exact ⟨s, rfl, rfl⟩
  | cons token tokens ih =>
    rw [List.forall_mem_cons] at h
    obtain ⟨event, next, he, hnext, houtline⟩ : ∃ event next, token.event n = .ok event ∧
        s.takeIn event = .ok next ∧ next.outline = s.outline := by
      rcases h.1 with hsilent | ⟨chars, text, rfl, htext⟩
      · exact ⟨none, s, Token.event_of_isSilent hsilent n, rfl, rfl⟩
      · have he : (Token.run chars).event n = .ok (some (.text ⟨text, ⟨n, n + byteLength chars⟩⟩)) := by
          simp only [Token.event, htext, Token.source_run]
        obtain ⟨_ | ⟨f, outer⟩, root⟩ := s
        · exact ⟨_, _, he, rfl, rfl⟩
        · exact ⟨_, _, he, rfl, by simp [outline]⟩
    obtain ⟨last, hlast, hsame⟩ := ih h.2 next (n + byteLength token.source)
    refine ⟨last, ?_, hsame.trans houtline⟩
    rw [run_cons _ he, hnext]
    exact hlast

theorem head?_map_name_of_outline {s' : Progress} (h : s'.outline = s.outline) :
    (s'.frames.map (·.tag.name)).head? = (s.frames.map (·.tag.name)).head? := by
  have hhead := congrArg (Option.map fun f : Tag × Nat × List Element => f.1.name) (congrArg Prod.fst h)
  simp only [outline, Option.map_map, List.head?_map] at hhead ⊢
  exact hhead

/-- Where the text of the innermost element is free, the rest tells that states are alike. -/
theorem alike_of_outline {loose : Text → Prop} {s' : Progress} (h : s'.outline = s.outline)
    (hloose : ∀ name ∈ (s.frames.map (·.tag.name)).head?, loose name.localPart) (k : Nat) : s.Alike loose k s' := by
  obtain ⟨frames, root⟩ := s
  obtain ⟨frames', root'⟩ := s'
  simp only [outline, Prod.mk.injEq] at h
  obtain ⟨hhead, htail, rfl⟩ := h
  refine ⟨?_, (Alike.refl loose k ⟨[], root'⟩).root⟩
  cases frames with
  | nil =>
    cases frames' with
    | nil => exact .nil
    | cons => cases hhead
  | cons f outer =>
    cases frames' with
    | nil => cases hhead
    | cons f' outer' =>
      simp only [List.head?_cons, Option.map_some, Option.some.injEq, Prod.mk.injEq] at hhead
      obtain ⟨htag, hstart, helements⟩ := hhead
      obtain rfl : outer' = outer := htail
      refine .cons ⟨?_, ?_, ?_, ?_⟩ (Alike.refl loose k ⟨outer', root'⟩).frames
      · exact htag ▸ .refl k _
      · exact hstart ▸ .refl k _
      · exact helements ▸ List.forall₂_same.2 fun e _ => .refl loose k e
      · exact fun hname => absurd (hloose _ rfl) hname

/-! ## Reading on -/

/-- Tokens are taken in before what follows them. -/
theorem resume_of_reads {t rest : Text} (h : Token.Reads tokens t rest) (s : Progress) (n : Nat) :
    s.resume n t = s.run n tokens >>= fun next => next.resume (n + byteLength (sources tokens)) rest := by
  induction h generalizing s n with
  | nil t => rfl
  | @cons token tokens t next rest ht hread _ ih =>
    rw [resume_eq_bind ht hread, run, bind_assoc]
    refine bind_congr fun event => ?_
    rw [bind_assoc]
    refine bind_congr fun state => ?_
    rw [ih, Token.sources_cons, Text.byteLength_append, Nat.add_assoc]

/-- A reference that resolves to nothing, whatever follows, ends the reading. -/
theorem resume_of_unescape_error {left : Text} {e : ReferenceFault} (hleft : '<' ∉ left)
    (h : ∀ more, unescape (left ++ more) = .error e) (s : Progress) (n : Nat) (rest : Text) :
    s.resume n (left ++ rest) = .error (.malformed n (.text e)) := by
  have hne : left ≠ [] := by
    rintro rfl
    have hnil := h []
    rw [List.append_nil, unescape_nil] at hnil
    cases hnil
  have hread : Token.read (left ++ rest) =
      .ok (.run (left ++ rest.takeWhile Token.isRun), rest.dropWhile Token.isRun) := by
    conv_lhs => rw [← List.takeWhile_append_dropWhile (p := Token.isRun) (l := rest), ← List.append_assoc]
    refine Token.read_run (by simp [hne]) ?_ fun c hc => Token.eq_of_head?_dropWhile_isRun hc
    rw [List.mem_append]
    exact not_or_intro hleft (Token.not_mem_takeWhile_isRun rest)
  rw [resume_eq_bind (by simp [hne]) hread]
  simp only [Token.event, h]
  rfl

end Progress

/-! ## Documents -/

/-- The place between `left` and `right` lies between two pieces of markup, the one that `front` ends with and the
one that `back` begins with, and directly inside an element of a loose name or outside of all elements. No reference of
the text around it, `left ++ right`, is cut there, and those behind the place resolve unless one before it does not. -/
structure Between (loose : Text → Prop) (front left right back : Text) : Prop where
  ends : ∃ tokens, Token.readAll front = (tokens, none) ∧ (∀ chars, tokens.getLast? ≠ some (.run chars)) ∧
    ∀ name ∈ (Token.opened tokens).head?, loose name.localPart
  left_run : '<' ∉ left
  right_run : '<' ∉ right
  begins : ∀ c, back.head? = some c → c = '<'
  references : (∃ s t, unescape left = .ok s ∧ unescape right = .ok t) ∨
    ∃ e, ∀ more, unescape (left ++ more) = .error e

namespace Between

variable {loose : Text → Prop} {front left right back w : Text}

/-- Padding moves what stands behind it, and changes the text of elements with loose names alone. -/
theorem agree_resume (h : Between loose front left right back) (hw : Padding w) :
    Agree (Error.Moved (byteLength w)) (Element.Alike loose (byteLength w))
      (Progress.start.resume 0 (front ++ (left ++ (right ++ back))))
      (Progress.start.resume 0 (front ++ (left ++ (w ++ (right ++ back))))) := by
  obtain ⟨tokens, hall, hlast, hloose⟩ := h.ends
  rw [Progress.resume_of_reads (Token.reads_append_right hall hlast _),
    Progress.resume_of_reads (Token.reads_append_right hall hlast _)]
  cases hrun : Progress.start.run 0 tokens with
  | error e => exact .error (.refl _ e)
  | ok s =>
    show Agree _ _ (s.resume _ _) (s.resume _ _)
    rcases h.references with ⟨_, _, hs, ht⟩ | ⟨e, he⟩
    · obtain ⟨plain, hplain, hquiet⟩ := Padding.nil.exists_reads h.left_run hs h.right_run ht h.begins
      rw [List.nil_append] at hplain
      obtain ⟨padded, hpadded, hquiet'⟩ := hw.exists_reads h.left_run hs h.right_run ht h.begins
      obtain ⟨last, hlast, hsame⟩ := Progress.run_quiet hquiet s (0 + byteLength (sources tokens))
      obtain ⟨last', hlast', hsame'⟩ := Progress.run_quiet hquiet' s (0 + byteLength (sources tokens))
      rw [Progress.resume_of_reads hplain, Progress.resume_of_reads hpadded, hlast, hlast']
      have halike : last.Alike loose (byteLength w) last' := by
        refine Progress.alike_of_outline (hsame'.trans hsame.symm) ?_ _
        rwa [Progress.head?_map_name_of_outline hsame, Progress.map_name_of_run hrun]
      have hlength := congrArg byteLength hplain.eq_append
      have hlength' := congrArg byteLength hpadded.eq_append
      simp only [Text.byteLength_append] at hlength hlength'
      refine halike.resume ?_ back
      unfold Near
      omega
    · rw [Progress.resume_of_unescape_error h.left_run he, Progress.resume_of_unescape_error h.left_run he]
      exact .error (.refl _ _)

/-- The documents with and without padding are alike, or have one error but for its span. -/
theorem agree_parse (h : Between loose front left right back) (hw : Padding w)
    (hmark : (front ++ (left ++ (right ++ back))).head? ≠ some '\uFEFF') :
    Agree (Error.Moved (byteLength w)) (fun d d' => d.root.Alike loose (byteLength w) d'.root)
      (Document.parse (front ++ (left ++ (right ++ back))))
      (Document.parse (front ++ (left ++ (w ++ (right ++ back))))) := by
  have hmark' : (front ++ (left ++ (w ++ (right ++ back)))).head? ≠ some '\uFEFF' := by
    rcases front with _ | ⟨c, front⟩
    · rcases left with _ | ⟨c, left⟩
      · exact hw.head?_append_ne hmark
      · exact hmark
    · exact hmark
  rw [Document.parse_eq, Document.parse_eq, dropMark_eq_self hmark, dropMark_eq_self hmark']
  exact (h.agree_resume hw).map fun _ _ halike => halike

end Between

end LintFixture.Markup
