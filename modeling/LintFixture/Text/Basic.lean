/-!
# Text

Text is the list of its characters, so offsets into it count characters and
every function on it is a recursion on the list. Spans of markup count UTF-8
bytes instead; `byteLength` and `sliceBytes?` pass from one measure to the other.
-/

namespace LintFixture

/-- A text, character by character. -/
abbrev Text := List Char

namespace Text

/-- Number of bytes of the UTF-8 form. -/
def byteLength : Text → Nat
  | [] => 0
  | c :: t => c.utf8Size + byteLength t

@[simp] theorem byteLength_nil : byteLength [] = 0 := rfl

@[simp] theorem byteLength_cons (c : Char) (t : Text) :
    byteLength (c :: t) = c.utf8Size + byteLength t := rfl

@[simp] theorem byteLength_append (s t : Text) :
    byteLength (s ++ t) = byteLength s + byteLength t := by
  induction s with
  | nil => simp
  | cons c s ih => simp [ih, Nat.add_assoc]

/-- The text after its first `n` bytes; none if that place is inside a character or past the end. -/
def dropBytes? : Text → Nat → Option Text
  | t, 0 => some t
  | [], _ + 1 => none
  | c :: t, n + 1 => if c.utf8Size ≤ n + 1 then dropBytes? t (n + 1 - c.utf8Size) else none

/-- The first `n` bytes; none if they end inside a character or past the end. -/
def takeBytes? : Text → Nat → Option Text
  | _, 0 => some []
  | [], _ + 1 => none
  | c :: t, n + 1 =>
    if c.utf8Size ≤ n + 1 then (takeBytes? t (n + 1 - c.utf8Size)).map (c :: ·) else none

/-- The bytes from `start` up to `stop`, when both are on character boundaries and in order. -/
def sliceBytes? (t : Text) (start stop : Nat) : Option Text :=
  if start ≤ stop then (dropBytes? t start).bind (takeBytes? · (stop - start)) else none

/-- The characters from `start` up to `stop`, when the range is in order and inside the text. -/
def slice? (t : Text) (start stop : Nat) : Option Text :=
  if start ≤ stop ∧ stop ≤ t.length then some ((t.drop start).take (stop - start)) else none

/-- The text without the longest end that satisfies `p`. -/
def dropEndWhile (p : Char → Bool) (t : Text) : Text := (t.reverse.dropWhile p).reverse

/-- What follows `mark`, if the text begins with it. -/
def strip? : Text → Text → Option Text
  | [], t => some t
  | _ :: _, [] => none
  | m :: mark, c :: t => if m = c then strip? mark t else none

theorem strip?_eq_some_iff {mark t rest : Text} : strip? mark t = some rest ↔ t = mark ++ rest := by
  fun_induction strip? mark t with
  | case1 => simp [eq_comm]
  | case2 => simp
  | case3 => simp_all
  | case4 _ _ _ _ h => simp [Ne.symm h]

/-- What stands before the first occurrence of `mark` and what follows it. -/
def cut? (mark : Text) : Text → Option (Text × Text)
  | [] => (strip? mark []).map ([], ·)
  | c :: t =>
    match strip? mark (c :: t) with
    | some rest => some ([], rest)
    | none => (cut? mark t).map fun (before, rest) => (c :: before, rest)

theorem eq_of_cut? {mark t before rest : Text} (h : cut? mark t = some (before, rest)) :
    t = before ++ mark ++ rest := by
  induction t generalizing before with
  | nil =>
    simp only [cut?, Option.map_eq_some_iff, Prod.mk.injEq] at h
    obtain ⟨_, hs, rfl, rfl⟩ := h
    simpa using strip?_eq_some_iff.1 hs
  | cons c t ih =>
    rw [cut?] at h
    split at h
    · next hs =>
      simp only [Option.some.injEq, Prod.mk.injEq] at h
      obtain ⟨rfl, rfl⟩ := h
      simpa using strip?_eq_some_iff.1 hs
    · simp only [Option.map_eq_some_iff, Prod.mk.injEq, Prod.exists] at h
      obtain ⟨b, _, hc, rfl, rfl⟩ := h
      simp [ih hc]

/-- Whether a character lies in one of the ranges, given by their first and last code points. -/
def inRanges (ranges : List (Nat × Nat)) (c : Char) : Bool :=
  ranges.any fun (first, last) => first ≤ c.toNat && c.toNat ≤ last

/-- The decimal numeral of `n`. -/
def ofNat (n : Nat) : Text := Nat.toDigits 10 n

/-- The parts, with `separator` between neighbours. -/
def join (separator : Text) (parts : List Text) : Text := separator.intercalate parts

end Text

end LintFixture
