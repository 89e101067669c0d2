import LintFixture.Markup.Nesting
import LintFixture.Proofs.Markup.Slice

/-!
# The two records agree

After any events the reader's names are those of the open elements
(`Builder.opened_of_foldlM`). So the builder's own check never fails, and reading
with both records gives what reading with one gives (`Document.build_eq`).
-/

namespace LintFixture.Markup

/-- The names of the open elements, innermost first. -/
def Progress.names (s : Progress) : List Text := s.frames.map (·.tag.name.text)

/-- The name is what a reader makes of it when it is written out. -/
def Name.IsRead (n : Name) : Prop := Name.ofText n.text = n

theorem Tag.isRead_name_of_read {base : Nat} {content : Text} {tag : Tag} (h : Tag.read base content = .ok tag) :
    tag.name.IsRead := by
  obtain ⟨attributes, -, h⟩ := bind_eq_ok_iff.1 h
  cases h
  rw [Name.IsRead, Name.text_ofText]

/-! ## One event -/

/-- The tag of an event has a name that was read. -/
def Event.IsRead : Event → Prop
  | .opening tag _ | .empty tag _ => tag.name.IsRead
  | .closing .. | .text _ | .verbatim _ => True

/-- All open elements have names that were read. -/
def Progress.IsRead (s : Progress) : Prop := ∀ f ∈ s.frames, f.tag.name.IsRead

namespace Progress

variable {s next : Progress} {event : Event}

/-- A complete element leaves the tags of the open ones as they are. -/
theorem map_tag_of_complete {frames : List Frame} {root : Option Element} {e : Element}
    (h : complete frames root e = .ok next) : next.frames.map Frame.tag = frames.map Frame.tag := by
  unfold complete at h
  split at h
  · cases h
    rfl
  · split at h <;> cases h
    rfl

theorem names_eq_map_tag (s : Progress) : s.names = (s.frames.map Frame.tag).map fun tag => tag.name.text := by
  rw [names, List.map_map]
  rfl

/-- An event that is taken in has passed the reader's check, which then stands where the builder does. -/
theorem checkEnd_of_step (h : s.step event = .ok next) : checkEnd s.names event = .ok next.names := by
  obtain ⟨frames, root⟩ := s
  cases event with
  | opening tag start =>
    cases h
    rfl
  | empty tag span =>
    rw [checkEnd, names_eq_map_tag next, map_tag_of_complete h, names_eq_map_tag]
  | closing name span =>
    cases frames with
    | nil => cases h
    | cons frame outer =>
      simp only [step] at h
      split at h
      · next hname =>
        rw [names_eq_map_tag next, map_tag_of_complete h, ← names_eq_map_tag ⟨outer, root⟩]
        simp [checkEnd, names, hname]
      · cases h
  | text run =>
    cases frames with
    | nil => cases h; rfl
    | cons frame outer =>
      cases h
      simp [checkEnd, names]
  | verbatim run =>
    cases frames with
    | nil => cases h; rfl
    | cons frame outer =>
      cases h
      rfl

theorem foldlM_checkEnd_of_step {events : List Event} (h : events.foldlM step s = .ok next) :
    events.foldlM checkEnd s.names = .ok next.names := by
  induction events generalizing s with
  | nil =>
    cases h
    rfl
  | cons event events ih =>
    rw [List.foldlM_cons] at h ⊢
    obtain ⟨middle, hstep, hlater⟩ := bind_eq_ok_iff.1 h
    rw [checkEnd_of_step hstep]
    exact ih hlater

theorem IsRead.step (hs : s.IsRead) (he : event.IsRead) (h : s.step event = .ok next) : next.IsRead := by
  have htags : ∀ {frames : List Frame}, next.frames.map Frame.tag = frames.map Frame.tag →
      (∀ f ∈ frames, f.tag.name.IsRead) → next.IsRead := by
    intro frames htag hframes f hf
    have hmem : f.tag ∈ frames.map Frame.tag := htag ▸ List.mem_map_of_mem hf
    obtain ⟨g, hg, heq⟩ := List.mem_map.1 hmem
    exact heq ▸ hframes g hg
  obtain ⟨frames, root⟩ := s
  cases event with
  | opening tag start =>
    cases h
    exact List.forall_mem_cons.2 ⟨he, hs⟩
  | empty tag span => exact htags (map_tag_of_complete h) hs
  | closing name span =>
    cases frames with
    | nil => cases h
    | cons frame outer =>
      simp only [Progress.step] at h
      split at h
      · exact htags (map_tag_of_complete h) (List.forall_mem_cons.1 hs).2
      · cases h
  | text run =>
    cases frames with
    | nil => cases h; exact hs
    | cons frame outer =>
      cases h
      exact htags (by simp) hs
  | verbatim run =>
    cases frames with
    | nil => cases h; exact hs
    | cons frame outer =>
      cases h
      exact htags (by rfl) hs

end Progress

namespace Builder

/-- The record of the builder, with the names the reader has kept by then. -/
def ofProgress (s : Progress) : Builder := ⟨s.names, s⟩

variable {s : Progress} {event : Event}

/-- With both records an event does what it does with one. -/
theorem step_ofProgress (hs : s.IsRead) :
    (ofProgress s).step event = ((s.step event).map ofProgress).mapError .reported := by
  cases hstep : s.step event with
  | ok next =>
    have hcheck := Progress.checkEnd_of_step hstep
    have hbuild : s.build event = .ok next := by
      cases event with
      | closing name span =>
        obtain ⟨frames, root⟩ := s
        cases frames with
        | nil => cases hstep
        | cons frame outer =>
          simp only [Progress.step] at hstep
          split at hstep
          · next hname =>
            -- the builder compares local names, and the whole names are the same
            have hread : Name.ofText frame.tag.name.text = frame.tag.name := hs frame List.mem_cons_self
            rw [hname] at hread
            simp only [Progress.build, hread, if_true, hstep]
            rfl
          · cases hstep
      | _ => simp only [Progress.build, hstep]; rfl
    simp only [Builder.step, ofProgress, hcheck, hbuild]
    rfl
  | error e =>
    cases event with
    | closing name span =>
      obtain ⟨frames, root⟩ := s
      cases frames with
      | nil =>
        cases hstep
        rfl
      | cons frame outer =>
        simp only [Progress.step] at hstep
        split at hstep
        · next hname =>
          have hread : Name.ofText frame.tag.name.text = frame.tag.name := hs frame List.mem_cons_self
          rw [hname] at hread
          simp only [Builder.step, ofProgress, Progress.names, List.map_cons, checkEnd, hname, if_true, Progress.build,
            hread, hstep]
          rfl
        · next hname =>
          cases hstep
          simp only [Builder.step, ofProgress, Progress.names, List.map_cons, checkEnd, if_neg hname]
          rfl
    | opening tag start => cases hstep
    | empty tag span => simp only [Builder.step, ofProgress, checkEnd, Progress.build, hstep]; rfl
    | text run => simp only [Builder.step, ofProgress, checkEnd, Progress.build, hstep]; rfl
    | verbatim run => simp only [Builder.step, ofProgress, checkEnd, Progress.build, hstep]; rfl

/-- With both records events do what they do with one. -/
theorem foldlM_ofProgress {events : List Event} (hs : s.IsRead) (he : ∀ event ∈ events, event.IsRead) :
    events.foldlM step (ofProgress s) = ((events.foldlM Progress.step s).map ofProgress).mapError .reported := by
  induction events generalizing s with
  | nil => rfl
  | cons event events ih =>
    rw [List.forall_mem_cons] at he
    rw [List.foldlM_cons, List.foldlM_cons, step_ofProgress hs]
    cases hstep : s.step event with
    | error e => rfl
    | ok next => exact ih (hs.step he.1 hstep) he.2

end Builder

/-! ## Documents -/

/-- The tags of events that were read from a text have names that were read. -/
theorem Stream.isRead_ofTokens {tokens : List Token} {offset : Nat} {fault : Option Fault} :
    ∀ event ∈ (Stream.ofTokens offset tokens fault).events, event.IsRead := by
  induction tokens generalizing offset with
  | nil => exact List.forall_mem_nil _
  | cons token tokens ih =>
    rw [Stream.ofTokens]
    cases htoken : token.event offset with
    | error e => exact List.forall_mem_nil _
    | ok event =>
      intro event' hmem
      rcases List.mem_append.1 hmem with hmem | hmem
      · obtain rfl := Option.mem_toList.1 hmem
        obtain ⟨first, hfirst, heq⟩ := Token.event_eq_ok_iff.1 htoken
        cases Token.means_of_event hfirst with
        | nothing => cases heq
        | opening hread =>
          cases heq
          -- the tag was read at the start of a text; moved to its place it has the same name
          have hname := Tag.isRead_name_of_read hread
          exact hname
        | empty hread =>
          cases heq
          have hname := Tag.isRead_name_of_read hread
          exact hname
        | closing content => cases heq; exact trivial
        | text _ run => cases heq; exact trivial
        | verbatim _ run => cases heq; exact trivial
      · exact ih event' hmem

theorem Stream.isRead_read (t : Text) : ∀ event ∈ (Stream.read t).events, event.IsRead := isRead_ofTokens

theorem Builder.start_eq : start = ofProgress .start := rfl

theorem Progress.isRead_start : Progress.start.IsRead := List.forall_mem_nil _

/-- Whatever the reader has read so far, its names are those of the open elements, in the same order. -/
theorem Builder.opened_of_foldlM {t : Text} {done : List Event} {b : Builder}
    (hdone : done <+: (Stream.read (dropMark t)).events) (h : done.foldlM step start = .ok b) :
    b.opened = b.progress.names := by
  have hread : ∀ event ∈ done, event.IsRead := fun event he => Stream.isRead_read _ event (hdone.subset he)
  rw [start_eq, foldlM_ofProgress Progress.isRead_start hread] at h
  cases hrun : done.foldlM Progress.step .start with
  | error e =>
    rw [hrun] at h
    cases h
  | ok last =>
    rw [hrun] at h
    cases h
    rfl

/-- The builder's own check finds no fault, so reading with both records is reading. -/
theorem Document.build_eq (t : Text) : Document.build t = (Document.parse t).mapError .reported := by
  simp only [Document.build, Document.parse, Stream.build, Builder.start_eq,
    Builder.foldlM_ofProgress Progress.isRead_start (Stream.isRead_read _)]
  cases (Stream.read (dropMark t)).events.foldlM Progress.step .start with
  | error e => rfl
  | ok last =>
    cases hfailure : (Stream.read (dropMark t)).failure with
    | some e => rfl
    | none =>
      cases hfinish : last.finish with
      | error e => simp [bind, Except.bind, Except.map, Except.mapError, Builder.ofProgress, hfinish]
      | ok root => simp [bind, Except.bind, Except.map, Except.mapError, Builder.ofProgress, hfinish, pure, Except.pure]

end LintFixture.Markup
