import LintFixture.Fixture.Schema
import Mathlib.Data.List.AList

/-!
# Fragments by id

The code fragments of a fixture, collected into a table before the first entry is
read. A fragment without an id is left out, and one whose id is taken replaces the
fragment that has it.
-/

namespace LintFixture.Fixture

open Markup

/-- Code fragments, each under its own id. -/
abbrev Fragments := AList fun _ : Text => Element

namespace Fragments

/-- The table with one more fragment. -/
def add (table : Fragments) (fragment : Element) : Fragments :=
  match fragment.attribute? Vocabulary.id with
  | some id => table.insert id fragment
  | none => table

/-- The fragments below a root, put in one after the other. -/
def ofRoot (root : Element) : Fragments := (root.childrenNamed Vocabulary.codeFragment).foldl add ∅

def find? (table : Fragments) (id : Text) : Option Element := table.lookup id

end Fragments

/-- Reads the suite below a root element as `Schema.readRoot` does, with its fragments collected into a table first. -/
def Schema.readRootTabled (root : Element) : Except (Stop Error) (Suite × List Override) :=
  if root.name = Vocabulary.testData then do
    let fragments := Fragments.ofRoot root
    let entries ← (root.childrenNamed Vocabulary.testCode).zipIdx.mapM fun (e, index) =>
      readEntry fragments.find? e index
    return (⟨entries.map Prod.fst⟩, entries.flatMap Prod.snd)
  else .error (.fault (.wrongRoot root.name root.tag.nameSpan))

/-- Reads a suite by a table of its fragments and hands each override to `record`, in order. -/
def Suite.ofDocumentTabled {σ : Type} (record : σ → Override → σ) (state : σ) (document : Document) :
    Except (Stop Error) Suite × σ :=
  match Schema.readRootTabled document.root with
  | .ok (suite, overrides) => (.ok suite, overrides.foldl record state)
  | .error e => (.error e, state)

end LintFixture.Fixture
