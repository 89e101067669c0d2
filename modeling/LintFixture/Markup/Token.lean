import LintFixture.Markup.Class
import LintFixture.Markup.Error

/-!
# Tokens

A document is a row of tokens: runs of text and pieces of markup. A token keeps
all it was written with: the sources of the tokens, one after the other, are the
text they were read from.
-/

namespace LintFixture.Markup

/-- A run of text or a piece of markup, without its delimiters. -/
inductive Token where
  | run (chars : Text)
  | cdata (body : Text)
  | comment (body : Text)
  | instruction (body : Text)
  /-- A document type: its key word as written, and what follows it. -/
  | doctype (keyword body : Text)
  | closeTag (content : Text)
  | openTag (content : Text)
  | emptyTag (content : Text)
  deriving DecidableEq, Repr

namespace Token

/-- The source of a token. -/
def source : Token → Text
  | .run chars => chars
  | .cdata body => ['<', '!', '[', 'C', 'D', 'A', 'T', 'A', '['] ++ body ++ [']', ']', '>']
  | .comment body => ['<', '!', '-', '-'] ++ body ++ ['-', '-', '>']
  | .instruction body => ['<', '?'] ++ body ++ ['?', '>']
  | .doctype keyword body => ['<', '!'] ++ keyword ++ body ++ ['>']
  | .closeTag content => ['<', '/'] ++ content ++ ['>']
  | .openTag content => ['<'] ++ content ++ ['>']
  | .emptyTag content => ['<'] ++ content ++ ['/', '>']

/-- What stands before the `>` that ends a tag, and what follows it. Within quotes, `>` is an
ordinary character; `quote` is the mark that the text is enclosed by. -/
def cutTag (quote : Option Char) : Text → Option (Text × Text)
  | [] => none
  | c :: rest =>
    match quote with
    | none =>
      if c = '>' then some ([], rest)
      else
        (cutTag (if isQuote c then some c else none) rest).map fun (content, after) =>
          (c :: content, after)
    | some q =>
      (cutTag (if c = q then none else some q) rest).map fun (content, after) =>
        (c :: content, after)

/-- What stands before the `>` that balances `depth` open brackets and one more, and what
follows it. -/
def cutBalanced (depth : Nat) : Text → Option (Text × Text)
  | [] => none
  | '<' :: rest =>
    (cutBalanced (depth + 1) rest).map fun (content, after) => ('<' :: content, after)
  | '>' :: rest =>
    match depth with
    | 0 => some ([], rest)
    | outer + 1 => (cutBalanced outer rest).map fun (content, after) => ('>' :: content, after)
  | c :: rest => (cutBalanced depth rest).map fun (content, after) => (c :: content, after)

/-- A tag that is not a closing one; a final slash makes it empty. -/
def ofTag (content : Text) : Token :=
  if content.getLast? = some '/' then .emptyTag content.dropLast else .openTag content

/-- The key word of a document type. -/
def doctypeWord : Text := ['D', 'O', 'C', 'T', 'Y', 'P', 'E']

/-- A document type from what stands between `<!` and `>`, in letters of any case. -/
def ofDoctype? (content : Text) : Option Token :=
  let (keyword, body) := content.splitAt doctypeWord.length
  if keyword.map Char.toUpper = doctypeWord then some (.doctype keyword body) else none

/-- Reads the token that begins with `<!` and goes on as given. -/
def readDeclaration : Text → Except Fault (Token × Text)
  | '[' :: rest =>
    match Text.strip? ['C', 'D', 'A', 'T', 'A', '['] rest with
    | none => .error .unclosedCdata
    | some rest =>
      match Text.cut? [']', ']', '>'] rest with
      | some (body, after) => .ok (.cdata body, after)
      | none => .error .unclosedCdata
  | '-' :: rest =>
    match rest with
    | '-' :: rest =>
      match Text.cut? ['-', '-', '>'] rest with
      | some (body, after) => .ok (.comment body, after)
      | none => .error .unclosedComment
    | _ => .error .unclosedComment
  | c :: rest =>
    if c = 'D' ∨ c = 'd' then
      match cutBalanced 0 (c :: rest) with
      | some (content, after) =>
        match ofDoctype? content with
        | some token => .ok (token, after)
        | none => .error .unclosedDoctype
      | none => .error .unclosedDoctype
    else .error .unknownMarkup
  | [] => .error .unknownMarkup

/-- Reads the token that begins with `<` and goes on as given. -/
def readMarkup : Text → Except Fault (Token × Text)
  | '!' :: rest => readDeclaration rest
  | '?' :: rest =>
    if rest.head? = some '>' then .error .unclosedInstruction
    else
      match Text.cut? ['?', '>'] rest with
      | some (body, after) => .ok (.instruction body, after)
      | none => .error .unclosedInstruction
  | '/' :: rest =>
    match cutTag none rest with
    | some (content, after) => .ok (.closeTag content, after)
    | none => .error .unclosedTag
  | rest =>
    match cutTag none rest with
    | some (content, after) => .ok (ofTag content, after)
    | none => .error .unclosedTag

/-- Whether a character stays in a run of text. -/
def isRun (c : Char) : Bool := c != '<'

/-- Reads the first token of a nonempty text and leaves the rest. -/
def read : Text → Except Fault (Token × Text)
  | '<' :: rest => readMarkup rest
  | t => .ok (.run (t.takeWhile isRun), t.dropWhile isRun)

/-! ## Reading loses nothing -/

theorem eq_of_cutTag {quote : Option Char} {t content after : Text}
    (h : cutTag quote t = some (content, after)) : t = content ++ '>' :: after := by
  induction t generalizing quote content with
  | nil => simp [cutTag] at h
  | cons c t ih =>
    simp only [cutTag] at h
    split at h
    · split at h
      · simp_all
      · simp only [Option.map_eq_some_iff, Prod.mk.injEq, Prod.exists] at h
        obtain ⟨_, _, hc, rfl, rfl⟩ := h
        simp [ih hc]
    · simp only [Option.map_eq_some_iff, Prod.mk.injEq, Prod.exists] at h
      obtain ⟨_, _, hc, rfl, rfl⟩ := h
      simp [ih hc]

theorem eq_of_cutBalanced {depth : Nat} {t content after : Text}
    (h : cutBalanced depth t = some (content, after)) : t = content ++ '>' :: after := by
  fun_induction cutBalanced depth t generalizing content with
  | case1 => simp at h
  | case3 => simp_all
  | case2 _ _ ih =>
    simp only [Option.map_eq_some_iff, Prod.mk.injEq, Prod.exists] at h
    obtain ⟨_, _, hc, rfl, rfl⟩ := h
    simp [ih hc]
  | case4 _ _ ih =>
    simp only [Option.map_eq_some_iff, Prod.mk.injEq, Prod.exists] at h
    obtain ⟨_, _, hc, rfl, rfl⟩ := h
    simp [ih hc]
  | case5 _ _ _ _ _ ih =>
    simp only [Option.map_eq_some_iff, Prod.mk.injEq, Prod.exists] at h
    obtain ⟨_, _, hc, rfl, rfl⟩ := h
    simp [ih hc]

theorem source_ofTag (content : Text) : (ofTag content).source = '<' :: content ++ ['>'] := by
  unfold ofTag
  split
  · next h =>
    obtain ⟨front, rfl⟩ := List.getLast?_eq_some_iff.1 h
    simp [source]
  · simp [source]

theorem source_of_ofDoctype? {content : Text} {token : Token}
    (h : ofDoctype? content = some token) :
    token.source = ['<', '!'] ++ content ++ ['>'] := by
  simp only [ofDoctype?, List.splitAt_eq] at h
  split at h
  · obtain rfl := Option.some.inj h
    simp [source]
  · cases h

theorem eq_of_readDeclaration {t rest : Text} {token : Token}
    (h : readDeclaration t = .ok (token, rest)) :
    '<' :: '!' :: t = token.source ++ rest ∧ token.source ≠ [] := by
  unfold readDeclaration at h
  split at h
  · split at h
    · cases h
    · next hs =>
      split at h
      · next hc =>
        simp only [Except.ok.injEq, Prod.mk.injEq] at h
        obtain ⟨rfl, rfl⟩ := h
        simp [Text.strip?_eq_some_iff.1 hs, Text.eq_of_cut? hc, source]
      · cases h
  · split at h
    · split at h
      · next hc =>
        simp only [Except.ok.injEq, Prod.mk.injEq] at h
        obtain ⟨rfl, rfl⟩ := h
        simp [Text.eq_of_cut? hc, source]
      · cases h
    · cases h
  · split at h
    · split at h
      · next hc =>
        split at h
        · next hd =>
          simp only [Except.ok.injEq, Prod.mk.injEq] at h
          obtain ⟨rfl, rfl⟩ := h
          simp [source_of_ofDoctype? hd, eq_of_cutBalanced hc]
        · cases h
      · cases h
    · cases h
  · cases h

theorem eq_of_readMarkup {t rest : Text} {token : Token}
    (h : readMarkup t = .ok (token, rest)) :
    '<' :: t = token.source ++ rest ∧ token.source ≠ [] := by
  unfold readMarkup at h
  split at h
  · exact eq_of_readDeclaration h
  · split at h
    · cases h
    · split at h
      · next hc =>
        simp only [Except.ok.injEq, Prod.mk.injEq] at h
        obtain ⟨rfl, rfl⟩ := h
        simp [Text.eq_of_cut? hc, source]
      · cases h
  · split at h
    · next hc =>
      simp only [Except.ok.injEq, Prod.mk.injEq] at h
      obtain ⟨rfl, rfl⟩ := h
      simp [eq_of_cutTag hc, source]
    · cases h
  · split at h
    · next hc =>
      simp only [Except.ok.injEq, Prod.mk.injEq] at h
      obtain ⟨rfl, rfl⟩ := h
      simp [source_ofTag, eq_of_cutTag hc]
    · cases h

/-- A token and what it leaves make up the text it was read from. -/
theorem eq_of_read {t rest : Text} {token : Token} (h : read t = .ok (token, rest)) :
    t = token.source ++ rest := by
  unfold read at h
  split at h
  · exact (eq_of_readMarkup h).1
  · simp only [Except.ok.injEq, Prod.mk.injEq] at h
    obtain ⟨rfl, rfl⟩ := h
    exact List.takeWhile_append_dropWhile.symm

theorem source_ne_nil_of_read {t rest : Text} {token : Token} (ht : t ≠ [])
    (h : read t = .ok (token, rest)) : token.source ≠ [] := by
  unfold read at h
  split at h
  · exact (eq_of_readMarkup h).2
  · next hn =>
    simp only [Except.ok.injEq, Prod.mk.injEq] at h
    obtain ⟨rfl, rfl⟩ := h
    obtain ⟨c, t, rfl⟩ := List.exists_cons_of_ne_nil ht
    have hc : isRun c = true := by
      simp only [isRun, bne_iff_ne]
      rintro rfl
      exact hn _ rfl
    simp [source, hc]

/-- Reading moves on. -/
theorem length_lt_of_read {t rest : Text} {token : Token} (ht : t ≠ [])
    (h : read t = .ok (token, rest)) : rest.length < t.length := by
  have := List.length_pos_iff.2 (source_ne_nil_of_read ht h)
  rw [eq_of_read h, List.length_append]
  omega

/-! ## All tokens -/

/-- The tokens of a text, and the fault in what follows them, if any. -/
def readAll (t : Text) : List Token × Option Fault :=
  if _ht : t = [] then ([], none)
  else
    match _h : read t with
    | .error fault => ([], some fault)
    | .ok (token, rest) =>
      let (tokens, fault) := readAll rest
      (token :: tokens, fault)
termination_by t.length
decreasing_by exact length_lt_of_read _ht _h

end Token

end LintFixture.Markup
