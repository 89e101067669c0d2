import LintFixture.Markup.Reference

/-!
# Sheets

A sheet is an element laid out for writing. Elements that hold elements put each
on a line of its own, four columns further in; text and CDATA stand directly
between the tags, so that no layout gets into them.
-/

namespace LintFixture.Markup

/-- An element to be written. -/
inductive Sheet where
  | text (name : Text) (attributes : List (Text × Text)) (content : Text)
  | cdata (name : Text) (attributes : List (Text × Text)) (sections : List Text)
  | group (name : Text) (attributes : List (Text × Text)) (children : List Sheet)

namespace Sheet

/-- An attribute with the blank before it. -/
def attributeText (key value : Text) : Text :=
  ' ' :: key ++ ['=', '\x22'] ++ escape value ++ ['\x22']

/-- A start tag. -/
def openingTag (name : Text) (attributes : List (Text × Text)) : Text :=
  '<' :: name ++ attributes.flatMap (fun (key, value) => attributeText key value) ++ ['>']

/-- An end tag. -/
def closingTag (name : Text) : Text := '<' :: '/' :: name ++ ['>']

/-- A CDATA section. -/
def cdataSection (content : Text) : Text :=
  ['<', '!', '[', 'C', 'D', 'A', 'T', 'A', '['] ++ content ++ [']', ']', '>']

/-- The break before a tag that stands `depth` levels in. -/
def lineBreak (depth : Nat) : Text := '\n' :: List.replicate (4 * depth) ' '

mutual

/-- The element `depth` levels in, without the break before it. -/
def write (depth : Nat) : Sheet → Text
  | .text name attributes content =>
    openingTag name attributes ++ escape content ++ closingTag name
  | .cdata name attributes sections =>
    openingTag name attributes ++ sections.flatMap cdataSection ++ closingTag name
  | .group name attributes children =>
    openingTag name attributes ++ writeAll (depth + 1) children ++ lineBreak depth
      ++ closingTag name

/-- Elements `depth` levels in, each on a line of its own. -/
def writeAll (depth : Nat) : List Sheet → Text
  | [] => []
  | child :: others => lineBreak depth ++ write depth child ++ writeAll depth others

end

/-- A whole document with this root. -/
def document (root : Sheet) : Text :=
  "<?xml version=\"1.0\" encoding=\"UTF-8\"?>".toList ++ lineBreak 0 ++ root.write 0 ++ ['\n']

/-- CDATA sections that together hold the text: each end mark in it is cut in two. -/
def sections (t : Text) : List Text :=
  match _h : Text.cut? [']', ']', '>'] t with
  | none => [t]
  | some (before, after) => (before ++ [']', ']']) :: sections ('>' :: after)
termination_by t.length
decreasing_by
  have := congrArg List.length (Text.eq_of_cut? _h)
  simp only [List.length_append, List.length_cons, List.length_nil] at this ⊢
  omega

end Sheet

end LintFixture.Markup
