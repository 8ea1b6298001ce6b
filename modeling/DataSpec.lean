import DataSpec.Main
import DataSpec.Conceptual.Written
import DataSpec.Structural.Written
import DataSpec.Proofs.Store.History
import DataSpec.Proofs.Store.Merging
import DataSpec.Proofs.Store.Ownership
import DataSpec.Proofs.Structural.Pipeline
import DataSpec.Proofs.Structural.Settled
import DataSpec.Proofs.JsonSchema.Inlining
import DataSpec.Proofs.Structural.Openings
import DataSpec.Proofs.XmlSchema.Nesting
import DataSpec.Proofs.JsonSchema.Opening
import DataSpec.Proofs.CsvSchema.Nesting
import DataSpec.Proofs.Generation.Nesting
import DataSpec.Proofs.XmlSchema.Uses
import DataSpec.Proofs.XmlSchema.Coming
import DataSpec.Proofs.XmlSchema.References
import DataSpec.Proofs.Json.Members
import DataSpec.Proofs.JsonSchema.Objects
import DataSpec.Proofs.JsonSchema.Members
import DataSpec.Proofs.Decimal.Digits
import DataSpec.Proofs.Json.Scanning
import DataSpec.Proofs.Json.RoundTrip
import DataSpec.Proofs.Time.Instant
import DataSpec.Proofs.Json.Decode
import DataSpec.Proofs.Resource.Written
import DataSpec.Proofs.Store.Persistence
import DataSpec.Proofs.Graph.Acyclic
import DataSpec.Proofs.Generation.Order
import DataSpec.Proofs.Generation.Run
import DataSpec.Proofs.JsonSchema.References
import DataSpec.Proofs.Generation.References
import DataSpec.Store.Copy
import DataSpec.Proofs.Store.Copying
import DataSpec.Proofs.Store.Announcements
import DataSpec.Proofs.Generation.GroupReferences
import DataSpec.Proofs.Generation.Imports
import DataSpec.Proofs.Structural.Building
import DataSpec.Proofs.Structural.Inheritance
import DataSpec.Proofs.Structural.Leaves
import DataSpec.Proofs.Conceptual.Building
import DataSpec.Proofs.Store.Refusals
import DataSpec.Proofs.Store.Identity
import DataSpec.Proofs.Store.Reordering
import DataSpec.Proofs.Store.Undoing
import DataSpec.Proofs.Structural.Extending
import DataSpec.Proofs.Text.Percent
import DataSpec.Proofs.CsvSchema.Columns
import DataSpec.Proofs.XmlSchema.Imports
import DataSpec.Proofs.XmlSchema.Rendering
import DataSpec.Proofs.XmlSchema.Hierarchies
import DataSpec.Proofs.Generation.DefaultPaths
import DataSpec.Proofs.CsvSchema.Routes
import DataSpec.Proofs.Documentation.Links
import DataSpec.Proofs.Text.RelativePaths
import DataSpec.Proofs.Generation.PublicReferences
import DataSpec.Proofs.Output.Writes
import DataSpec.Proofs.XmlSchema.WellFormed
import DataSpec.Proofs.Structural.Filling
import DataSpec.Proofs.JsonSchema.Written
import DataSpec.Proofs.JsonSchema.Keys
import DataSpec.Proofs.Config.Overrides
import DataSpec.Proofs.Xml.Escaping
import DataSpec.Proofs.Store.FreeNumbers
import DataSpec.Proofs.Markdown.Rows
import DataSpec.Proofs.CsvSchema.ColumnNames
