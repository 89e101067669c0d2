import LintFixture.Fixture.Schema

/-!
# Reading with a note

The description of an entry is noted as soon as it has been read. A flaw is reported
with what is noted at that point, so one that is found earlier comes without.
-/

namespace LintFixture.Fixture

open Markup

/-- Steps that can note a description. A flaw carries the note. -/
abbrev Noting := StateT (Option Text) (Except (Stop (Option Text × Flaw)))

namespace Schema

/-- Takes a step of reading, which leaves the note as it is. -/
def noting {α : Type} (step : Except (Stop Flaw) α) : Noting α := fun note =>
  match step with
  | .ok a => .ok (a, note)
  | .error stop => .error (stop.map fun flaw => (note, flaw))

/-- Reads one entry: the case and its properties in document order. -/
def noteCase (fragment? : Text → Option Element) (e : Element) : Noting (Case × List (Text × Text)) := do
  let description ← noting (requiredText e Vocabulary.description)
  set (some description)
  let body ← noting (readDescribed fragment? e description)
  noting (readProperties e body)

/-- Reads the entry at `index`; a flaw is reported with the note that was taken. -/
def noteEntry (fragment? : Text → Option Element) (e : Element) (index : Nat) :
    Except (Stop Error) (Case × List Override) :=
  match (noteCase fragment? e).run none with
  | .ok ((entry, properties), _) =>
    .ok (entry, properties.map fun (name, value) => ⟨index, name, value⟩)
  | .error stop =>
    .error (stop.map fun (note, flaw) => .schema index note flaw.span flaw.fault)

end Schema

/-- Reads a suite from a document, with a note for each entry. -/
def Suite.ofDocumentNoting (document : Document) : Except (Stop Error) Suite :=
  let root := document.root
  if root.name = Vocabulary.testData then do
    let entries ← (root.childrenNamed Vocabulary.testCode).zipIdx.mapM fun (e, index) =>
      Schema.noteEntry (Schema.fragment? root) e index
    return ⟨entries.map Prod.fst⟩
  else .error (.fault (.wrongRoot root.name root.tag.nameSpan))

end LintFixture.Fixture
