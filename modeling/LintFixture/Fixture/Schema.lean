import LintFixture.Fixture.Case
import LintFixture.Fixture.Error
import LintFixture.Fixture.Snippet
import LintFixture.Grid.Coordinates
import LintFixture.Markup.Document

/-!
# Reading a fixture

A document is read entry by entry. Of several children with one name the first
counts, of several code fragments with one id the last. Property overrides are
handed on only when every entry has been read.
-/

namespace LintFixture.Fixture

open Grid Markup

/-- A rule property set by the entry at `index`. -/
structure Override where
  index : Nat
  name : Text
  value : Text
  deriving DecidableEq, Repr

/-- A broken rule of the schema and the element that breaks it. -/
structure Flaw where
  span : Span
  fault : SchemaFault
  deriving DecidableEq, Repr

namespace Schema

/-- The text of an element, trimmed. -/
def textOf (e : Element) : Text := Text.trim e.innerText

/-- The text of the first child of that name. -/
def optionalText (e : Element) (name : Text) : Option Text := (e.child? name).map textOf

def requiredText (e : Element) (name : Text) : Except (Stop Flaw) Text :=
  match optionalText e name with
  | some text => .ok text
  | none => .error (.fault ⟨e.span, .missingElement name⟩)

/-- The span of the first child of that name, or of the entry itself. -/
def spanOf (e : Element) (name : Text) : Span := ((e.child? name).getD e).span

/-- The number of violations to report. -/
def readCount (e : Element) : Except (Stop Flaw) Nat := do
  let text ← requiredText e Vocabulary.expectedProblems
  match Numeral.readSize text with
  | .ok count => return count
  | .error _ => throw (.fault ⟨spanOf e Vocabulary.expectedProblems, .invalidCount text⟩)

/-- The messages to report, if the entry lists them. -/
def readMessages (e : Element) : Option (List Text) :=
  (e.child? Vocabulary.expectedMessages).map fun list =>
    (list.childrenNamed Vocabulary.message).map textOf

/-- One item of a list of line numbers. -/
def readLine (e : Element) (item : Text) : Except (Stop Flaw) Nat :=
  match Numeral.readSize (Text.trim item) with
  | .ok (line + 1) => .ok (line + 1)
  | _ => .error (.fault ⟨spanOf e Vocabulary.expectedLines, .invalidLine (Text.trim item)⟩)

/-- The lines to report on, if the entry lists them; an empty text lists none. -/
def readLines (e : Element) : Except (Stop Flaw) (Option (List Nat)) :=
  match optionalText e Vocabulary.expectedLines with
  | none => .ok none
  | some text =>
    if text.isEmpty then .ok (some [])
    else do return some (← (text.splitOn ',').mapM (readLine e))

/-- The code fragment with an id; of several, the last. -/
def fragment? (root : Element) (id : Text) : Option Element :=
  (root.childrenNamed Vocabulary.codeFragment).reverse.find?
    fun fragment => fragment.attribute? Vocabulary.id == some id

/-- The text of the code, which may stand in a fragment. -/
def readCode (fragment? : Text → Option Element) (e : Element) : Except (Stop Flaw) Text :=
  match e.child? Vocabulary.code with
  | some code => .ok code.innerText
  | none =>
    match e.child? Vocabulary.codeRef with
    | none => .error (.fault ⟨e.span, .missingCode⟩)
    | some reference =>
      match reference.attribute? Vocabulary.id with
      | none => .error (.fault ⟨reference.span, .missingReference⟩)
      | some id =>
        match fragment? id with
        | some fragment => .ok fragment.innerText
        | none => .error (.fault ⟨reference.span, .unknownFragment id⟩)

/-- A list of another length than the number of problems is a flaw; no list is none. -/
def checkLength {α : Type} (e : Element) (listing : Listing) (count : Nat) :
    Option (List α) → Except (Stop Flaw) Unit
  | none => .ok ()
  | some items =>
    if items.length = count then .ok ()
    else .error (.fault ⟨spanOf e listing.element, .countMismatch listing count items.length⟩)

/-- The location that a listed line names in the code. -/
def locate (e : Element) (source : Text) (line : Nat) : Except (Stop Flaw) Location :=
  match regionOfLine source line with
  | .ok region => .ok (.line line region)
  | .error _ =>
    .error (.fault ⟨spanOf e Vocabulary.expectedLines, .lineOutside line (countLines source)⟩)

/-- A setting that holds unless the attribute has one of the given values. -/
def readFlag (e : Element) (setting : Text) (off : List Text) : Bool :=
  match e.attribute? setting with
  | none => true
  | some value => !off.contains (Text.trim value)

/-- One property: its name and its value. -/
def readProperty (property : Element) : Except (Stop Flaw) (Text × Text) :=
  match property.attribute? Vocabulary.name with
  | some name => .ok (name, textOf property)
  | none => .error (.fault ⟨property.span, .unnamedProperty⟩)

/-- Takes room for `count` violations, before there is any of them. -/
def reserve (count : Nat) : Except (Stop Flaw) Unit :=
  if count ≤ Expectation.capacity then .ok () else .error .overflow

/-- The locations of `count` violations: on the listed lines, or anywhere. -/
def readLocations (e : Element) (source : Text) (count : Nat) (lines : Option (List Nat)) :
    Except (Stop Flaw) (List Location) := do
  reserve count
  match lines with
  | none => return List.replicate count .anywhere
  | some lines => lines.mapM (locate e source)

/-- The messages of `count` violations, if they are listed. -/
def messagesOf (count : Nat) : Option (List Text) → List (Option Text)
  | none => List.replicate count none
  | some messages => messages.map some

/-- The case made up of the parts that were read. -/
def assemble (e : Element) (description : Text) (count : Nat) (source : Text) (locations : List Location)
    (properties : List (Text × Text)) : Case where
  description
  source
  expectations := List.zipWith Expectation.mk (messagesOf count (readMessages e)) locations
  properties := .ofList properties
  languageVersion := optionalText e Vocabulary.sourceType
  reinitializeRule := readFlag e Vocabulary.reinitializeRule ["false".toList, "0".toList]
  regressionTest := readFlag e Vocabulary.regressionTest ["false".toList]
  useAuxClasspath := readFlag e Vocabulary.useAuxClasspath ["false".toList]

/-- Reads all of an entry but its description and its properties. -/
def readDescribed (fragment? : Text → Option Element) (e : Element) (description : Text) :
    Except (Stop Flaw) Case := do
  let count ← readCount e
  let lines ← readLines e
  let source := Snippet.extract (← readCode fragment? e)
  checkLength e .messages count (readMessages e)
  checkLength e .lines count lines
  let locations ← readLocations e source count lines
  return assemble e description count source locations []

/-- Reads all of an entry but its properties. -/
def readBody (fragment? : Text → Option Element) (e : Element) : Except (Stop Flaw) Case := do
  readDescribed fragment? e (← requiredText e Vocabulary.description)

/-- Reads the properties of an entry into its case; they are also given in document order. -/
def readProperties (e : Element) (c : Case) : Except (Stop Flaw) (Case × List (Text × Text)) := do
  let properties ← (e.childrenNamed Vocabulary.ruleProperty).mapM readProperty
  return ({ c with properties := .ofList properties }, properties)

/-- Reads one entry: the case and its properties in document order. -/
def readCase (fragment? : Text → Option Element) (e : Element) :
    Except (Stop Flaw) (Case × List (Text × Text)) := do
  readProperties e (← readBody fragment? e)

/-- Reads the entry at `index`; a flaw is reported with the entry's description. -/
def readEntry (fragment? : Text → Option Element) (e : Element) (index : Nat) :
    Except (Stop Error) (Case × List Override) :=
  match readCase fragment? e with
  | .ok (entry, properties) =>
    .ok (entry, properties.map fun (name, value) => ⟨index, name, value⟩)
  | .error stop =>
    .error (stop.map fun flaw =>
      .schema index (optionalText e Vocabulary.description) flaw.span flaw.fault)

/-- Reads the suite below a root element, and the overrides in document order. -/
def readRoot (root : Element) : Except (Stop Error) (Suite × List Override) :=
  if root.name = Vocabulary.testData then do
    let entries ← (root.childrenNamed Vocabulary.testCode).zipIdx.mapM fun (e, index) =>
      readEntry (fragment? root) e index
    return (⟨entries.map Prod.fst⟩, entries.flatMap Prod.snd)
  else .error (.fault (.wrongRoot root.name root.tag.nameSpan))

end Schema

namespace Suite

/-- Reads a suite from a document and hands each override to `record`, in order. -/
def ofDocumentWith {σ : Type} (record : σ → Override → σ) (state : σ) (document : Document) :
    Except (Stop Error) Suite × σ :=
  match Schema.readRoot document.root with
  | .ok (suite, overrides) => (.ok suite, overrides.foldl record state)
  | .error e => (.error e, state)

/-- Reads a suite from a document. -/
def ofDocument (document : Document) : Except (Stop Error) Suite :=
  (Schema.readRoot document.root).map Prod.fst

/-- Reads a suite from a text and hands each override to `record`, in order. -/
def parseWith {σ : Type} (record : σ → Override → σ) (state : σ) (text : Text) :
    Except (Stop Error) Suite × σ :=
  match Document.parse text with
  | .ok document => ofDocumentWith record state document
  | .error e => (.error (.fault (.markup e)), state)

/-- Reads a suite from a text. -/
def parse (text : Text) : Except (Stop Error) Suite :=
  match Document.parse text with
  | .ok document => ofDocument document
  | .error e => .error (.fault (.markup e))

end Suite

end LintFixture.Fixture
