import LintFixture.Outline
import LintFixture.Fixture.Overrides
import LintFixture.Fixture.Verdict
import LintFixture.Main
import LintFixture.Proofs.Fixture.RoundTrip
import LintFixture.Proofs.Fixture.Content
import LintFixture.Proofs.Markup.Slice
import LintFixture.Proofs.Markup.Nesting
import LintFixture.Proofs.Markup.Content
import LintFixture.Proofs.Markup.Tree
import LintFixture.Proofs.Markup.Attribute
import LintFixture.Proofs.Markup.Geometry
import LintFixture.Proofs.Markup.Outcome
import LintFixture.Fixture.Buffer
import LintFixture.Proofs.Fixture.Overrides
import LintFixture.Fixture.Note
import LintFixture.Proofs.Fixture.Flaw
import LintFixture.Proofs.Rearrangement
import LintFixture.Proofs.Fixture.Matching
import LintFixture.Proofs.Fixture.ReportOrder
import LintFixture.Proofs.Fixture.Mirror
import LintFixture.Proofs.Grid.Partition
import LintFixture.Proofs.Fixture.Reread
import LintFixture.Proofs.Cli.MarkedRange
import LintFixture.Proofs.Agreement
import LintFixture.Proofs.Markup.Alike
import LintFixture.Proofs.Markup.Padding
import LintFixture.Proofs.Fixture.Layout
import LintFixture.Proofs.Outline
import LintFixture.Proofs.Fixture.Depth
import LintFixture.Markup.Sighting
import LintFixture.Proofs.Grid.Order
import LintFixture.Proofs.Grid.Rendering
import LintFixture.Proofs.Grid.Seam
import LintFixture.Proofs.Markup.Sighting
import LintFixture.Proofs.Grid.PositionText
import LintFixture.Proofs.Fixture.Refusal
import LintFixture.Fixture.Fragments
import LintFixture.Proofs.Fixture.Inlining
import LintFixture.Proofs.Markup.ErrorPlace
import LintFixture.Markup.Splitting
import LintFixture.Proofs.Grid.Membership
import LintFixture.Proofs.Markup.Splitting
import LintFixture.Proofs.Fixture.Reindenting
