import LintFixture.Fixture.Schema

/-!
# Reading into a buffer

One buffer takes the overrides of all entries while they are read, also those of
an entry with a flaw behind them. Each property is put into the buffer and into its
case on its own. The buffer is handed on once the last entry has been read.
-/

namespace LintFixture.Fixture

open Markup

/-- What was read, or why nothing was, and the buffer at that point. -/
structure Buffered (ε α : Type) where
  result : Except ε α
  buffer : List Override

namespace Schema

/-- Adds properties to the case and to the buffer, one by one. -/
def bufferProperties (index : Nat) (c : Case) (buffer : List Override) : List Element → Buffered (Stop Flaw) Case
  | [] => ⟨.ok c, buffer⟩
  | property :: others =>
    match property.attribute? Vocabulary.name with
    | none => ⟨.error (.fault ⟨property.span, .unnamedProperty⟩), buffer⟩
    | some name =>
      let value := textOf property
      bufferProperties index { c with properties := c.properties.insert name value }
        (buffer ++ [⟨index, name, value⟩]) others

/-- Reads the entry at `index`; a flaw is reported with the entry's description. -/
def bufferEntry (fragment? : Text → Option Element) (buffer : List Override) (e : Element) (index : Nat) :
    Buffered (Stop Error) Case :=
  let read : Buffered (Stop Flaw) Case :=
    match readBody fragment? e with
    | .ok c => bufferProperties index c buffer (e.childrenNamed Vocabulary.ruleProperty)
    | .error stop => ⟨.error stop, buffer⟩
  ⟨read.result.mapError (Stop.map fun flaw =>
    .schema index (optionalText e Vocabulary.description) flaw.span flaw.fault), read.buffer⟩

/-- Reads the entries up to the first flaw. -/
def bufferEntries (fragment? : Text → Option Element) (buffer : List Override) :
    List (Element × Nat) → Buffered (Stop Error) (List Case)
  | [] => ⟨.ok [], buffer⟩
  | (e, index) :: others =>
    match bufferEntry fragment? buffer e index with
    | ⟨.error stop, buffer⟩ => ⟨.error stop, buffer⟩
    | ⟨.ok c, buffer⟩ =>
      let later := bufferEntries fragment? buffer others
      ⟨later.result.map (c :: ·), later.buffer⟩

end Schema

/-- Reads a suite from a document with a buffer and hands on what is in it. -/
def Suite.ofDocumentBuffered {σ : Type} (record : σ → Override → σ) (state : σ) (document : Document) :
    Except (Stop Error) Suite × σ :=
  let root := document.root
  if root.name = Vocabulary.testData then
    match Schema.bufferEntries (Schema.fragment? root) [] (root.childrenNamed Vocabulary.testCode).zipIdx with
    | ⟨.ok cases, buffer⟩ => (.ok ⟨cases⟩, buffer.foldl record state)
    | ⟨.error e, _⟩ => (.error e, state)
  else (.error (.fault (.wrongRoot root.name root.tag.nameSpan)), state)

end LintFixture.Fixture
