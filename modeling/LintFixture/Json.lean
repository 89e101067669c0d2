import LintFixture.Text.Basic

/-!
# JSON

Values and their two texts: compact, on one line without blanks, and pretty, with
each item on a line of its own and two columns more for each level. Fields keep
the order they are given in.
-/

namespace LintFixture

/-- A JSON value with natural numbers. -/
inductive Json where
  | null
  | bool (b : Bool)
  | num (n : Nat)
  | str (t : Text)
  | arr (items : List Json)
  | obj (fields : List (Text × Json))

namespace Json

def ofOption {α : Type} (f : α → Json) : Option α → Json
  | none => .null
  | some a => f a

/-- The form of a character inside a string. Only quotes, backslashes and the controls below the
space are escaped. -/
def escapeChar (c : Char) : Text :=
  if c = '\x22' then ['\\', '\x22']
  else if c = '\\' then ['\\', '\\']
  else if c = '\n' then ['\\', 'n']
  else if c = '\r' then ['\\', 'r']
  else if c = '\t' then ['\\', 't']
  else if c.toNat = 0x08 then ['\\', 'b']
  else if c.toNat = 0x0C then ['\\', 'f']
  else if c.toNat < 0x20 then
    ['\\', 'u', '0', '0', Nat.digitChar (c.toNat / 16), Nat.digitChar (c.toNat % 16)]
  else [c]

/-- A string between its quotes. -/
def quote (t : Text) : Text := '\x22' :: t.flatMap escapeChar ++ ['\x22']

def boolText (b : Bool) : Text := (if b then "true" else "false").toList

mutual

/-- The text on one line. -/
def compact : Json → Text
  | .null => "null".toList
  | .bool b => boolText b
  | .num n => Text.ofNat n
  | .str t => quote t
  | .arr items => '[' :: Text.join [','] (compactItems items) ++ [']']
  | .obj fields => '\x7b' :: Text.join [','] (compactFields fields) ++ ['\x7d']

def compactItems : List Json → List Text
  | [] => []
  | item :: others => compact item :: compactItems others

def compactFields : List (Text × Json) → List Text
  | [] => []
  | (key, value) :: others => (quote key ++ ':' :: compact value) :: compactFields others

end

/-- The break before an item `depth` levels in. -/
def lineBreak (depth : Nat) : Text := '\n' :: List.replicate (2 * depth) ' '

/-- Items between two brackets, each on its own line; nothing stands between those of no item. -/
def block (opening closing : Char) (depth : Nat) (items : List Text) : Text :=
  if items.isEmpty then [opening, closing]
  else
    opening :: Text.join [','] (items.map (lineBreak (depth + 1) ++ ·))
      ++ lineBreak depth ++ [closing]

mutual

/-- The text of a value that stands `depth` levels in. -/
def prettyAt (depth : Nat) : Json → Text
  | .null => "null".toList
  | .bool b => boolText b
  | .num n => Text.ofNat n
  | .str t => quote t
  | .arr items => block '[' ']' depth (prettyItems (depth + 1) items)
  | .obj fields => block '\x7b' '\x7d' depth (prettyFields (depth + 1) fields)

def prettyItems (depth : Nat) : List Json → List Text
  | [] => []
  | item :: others => prettyAt depth item :: prettyItems depth others

def prettyFields (depth : Nat) : List (Text × Json) → List Text
  | [] => []
  | (key, value) :: others =>
    (quote key ++ [':', ' '] ++ prettyAt depth value) :: prettyFields depth others

end

/-- The text on several lines. -/
def pretty (j : Json) : Text := j.prettyAt 0

end Json

end LintFixture
