import JsonShape.Decode.Target
import JsonShape.Files.Tree
import JsonShape.Main
import JsonShape.Node.Order
import JsonShape.Output.Blueprint
import JsonShape.Output.Call
import JsonShape.Output.Doc
import JsonShape.Output.Struct
import JsonShape.Proofs.Input.Documentation
import JsonShape.Proofs.Input.Projection
import JsonShape.Proofs.Output.Agreement
import JsonShape.Proofs.Registry.Meaning
import JsonShape.Schema.Memo
import JsonShape.Proofs.Output.Components
import JsonShape.Proofs.Schema.SelfContained
import JsonShape.Proofs.Node.References
import JsonShape.Proofs.Registry.SelfContained
import JsonShape.Proofs.TypeDef.RoundTrip
import JsonShape.Proofs.Schema.Related
import JsonShape.Proofs.Output.Mirror
import JsonShape.Proofs.Output.RoundTrip
import JsonShape.Proofs.Shape
import JsonShape.Proofs.Output.Limit
import JsonShape.Proofs.Output.Build
import JsonShape.Proofs.Output.Chain
import JsonShape.Proofs.Output.Selection
import JsonShape.Proofs.Output.Overlay
import JsonShape.Proofs.Output.Edits
import JsonShape.Proofs.Distinct
import JsonShape.Proofs.Schema.Flat
import JsonShape.Proofs.Input.Unions
import JsonShape.Proofs.Output.Merging
import JsonShape.Proofs.Report.Combined
import JsonShape.Proofs.Input.Inheritance
import JsonShape.Proofs.Schema.Renamed
import JsonShape.Proofs.TypeDef.Documentation
import JsonShape.Proofs.Registry.Documentation
import JsonShape.Proofs.Registry.Termination
import JsonShape.Proofs.TypeDef.Revalidation
import JsonShape.Proofs.Registry.Revalidation
import JsonShape.Proofs.Output.Documentation
import JsonShape.Proofs.Output.Layers
import JsonShape.Proofs.Output.Inheritance
import JsonShape.Proofs.Node.Choices
import JsonShape.Proofs.Json.Nulls
import JsonShape.Proofs.Registry.Components
import JsonShape.Proofs.Registry.Faults
import JsonShape.Proofs.Output.Emission
import JsonShape.Proofs.Node.Normal
import JsonShape.Proofs.Schema.Throughout
import JsonShape.Proofs.Node.Alternatives
import JsonShape.Proofs.TypeDef.Unions
import JsonShape.Proofs.TypeDef.UnionFragments
import JsonShape.Proofs.Registry.Required
import JsonShape.Proofs.Registry.Rules
import JsonShape.Proofs.Binary64.Rounding
import JsonShape.Proofs.Json.Number
import JsonShape.Proofs.Input.Ranges
import JsonShape.Proofs.Json.Multiples
import JsonShape.Proofs.Input.Whole
import JsonShape.Proofs.Output.BaseView
import JsonShape.Proofs.Input.Levels
import JsonShape.Proofs.Input.Complicated
import JsonShape.Proofs.Report.Paths
import JsonShape.Proofs.Input.Local
import JsonShape.Proofs.Schema.Memo
import JsonShape.Proofs.Registry.Read
