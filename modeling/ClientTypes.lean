import ClientTypes.Naming.Spelling
import ClientTypes.Naming.Reference
import ClientTypes.Naming.Identifier
import ClientTypes.Naming.Version
import ClientTypes.Text.Uppercase
import ClientTypes.Text.Printable
import ClientTypes.Json.Printer
import ClientTypes.Json.Reader
import ClientTypes.Yaml.Reader
import ClientTypes.TargetType
import ClientTypes.Linking.Notes
import ClientTypes.Report
import ClientTypes.Schema.Conversion
import ClientTypes.Document.Reader
import ClientTypes.Model.Writer
import ClientTypes.Model.Reader
import ClientTypes.Config.Reader
import ClientTypes.Stage
import ClientTypes.Resolution.Resolver
import ClientTypes.Compilation
import ClientTypes.Main
import ClientTypes.Proofs.Table
import ClientTypes.Proofs.Resolution.Expansion
import ClientTypes.Proofs.Resolution.Flattening
import ClientTypes.Proofs.Naming.Identifier
import ClientTypes.Proofs.Naming.RepeatedRenaming
import ClientTypes.Proofs.Hints
import ClientTypes.Proofs.Hints.LongestFront
import ClientTypes.Proofs.Model.Types
import ClientTypes.Proofs.Model.Containers
import ClientTypes.Proofs.Compilation.Containers
import ClientTypes.Proofs.Compilation.OperationTypes
import ClientTypes.Proofs.Text.Piece
import ClientTypes.Proofs.CrossReference.Renaming
import ClientTypes.Proofs.CrossReference.Substitution
import ClientTypes.Proofs.Resolution.Invariant
import ClientTypes.Proofs.Resolution.Enrichment
import ClientTypes.Proofs.Resolution.Synthetic
import ClientTypes.Proofs.Naming.Spelling
import ClientTypes.Proofs.Naming.Reference
import ClientTypes.Proofs.TargetType
import ClientTypes.Proofs.TargetType.Renaming
import ClientTypes.Proofs.Resolution.Nesting
import ClientTypes.Proofs.Resolution.Steady
import ClientTypes.Proofs.Resolution.Termination
import ClientTypes.Proofs.Resolution.Typing
import ClientTypes.Proofs.Resolution.Shape
import ClientTypes.Proofs.Resolution.ResolverShape
import ClientTypes.Proofs.Resolution.ResolverTyping
import ClientTypes.Proofs.CrossReference.Typing
import ClientTypes.Proofs.Compilation
import ClientTypes.Proofs.CrossReference.Distinct
import ClientTypes.Proofs.Checked
import ClientTypes.Proofs.Compilation.Classnames
import ClientTypes.Proofs.Compilation.Fields
import ClientTypes.Proofs.Document.Hoisting
import ClientTypes.Proofs.Document.Kept
import ClientTypes.Proofs.Document.Entries
import ClientTypes.Proofs.Document.Dialect
import ClientTypes.Proofs.Document.Dialect.Parts
import ClientTypes.Proofs.Document.Dialect.Documents
import ClientTypes.Proofs.Resolution.Fields
import ClientTypes.Proofs.Resolution.Inheritance
import ClientTypes.Proofs.Resolution.Origin
import ClientTypes.Proofs.Compilation.Removal
import ClientTypes.Proofs.Compilation.Lookup
import ClientTypes.Proofs.Compilation.Tidy
import ClientTypes.Proofs.Operations.References
import ClientTypes.Proofs.Resolution.Calls
import ClientTypes.Proofs.Resolution.Bases
import ClientTypes.Proofs.Resolution.Required
import ClientTypes.Proofs.Linking
import ClientTypes.Proofs.CrossReference.Stamps
import ClientTypes.Proofs.Compilation.Stamps
import ClientTypes.Proofs.Stage
import ClientTypes.Proofs.Model.Serialized
import ClientTypes.Proofs.Naming.SnakeCase
import ClientTypes.Proofs.Value.Display
import ClientTypes.Proofs.Naming.Shapes
import ClientTypes.Proofs.Resolution.Values
import ClientTypes.Proofs.Resolution.EntryNames
import ClientTypes.Proofs.CrossReference.FriendlyNames
import ClientTypes.Proofs.Compilation.KeptNames
import ClientTypes.Proofs.Naming.Placeholder
import ClientTypes.Proofs.CrossReference.DerivedNames
import ClientTypes.Proofs.Compilation.DerivedNames
import ClientTypes.Proofs.CrossReference.Stubs
import ClientTypes.Proofs.Compilation.Stubs
import ClientTypes.Proofs.Resolution.UnionMembers
import ClientTypes.Proofs.Resolution.FixedPoint
import ClientTypes.Proofs.Resolution.Repeating
import ClientTypes.Proofs.Resolution.ElementNames
import ClientTypes.Proofs.Document.Pointers
import ClientTypes.Proofs.Document.References
import ClientTypes.Proofs.Schema.Kinds
import ClientTypes.Proofs.Schema.WellFormed
import ClientTypes.Proofs.Resolution.Defaults
import ClientTypes.Proofs.CrossReference.RequiredFlags
import ClientTypes.Proofs.Compilation.RequiredFlags
import ClientTypes.Proofs.Naming.OperationName
import ClientTypes.Proofs.Linking.Groups
import ClientTypes.Proofs.Linking.Notes
import ClientTypes.Proofs.Yaml.Braces
import ClientTypes.Proofs.Document.Faults
import ClientTypes.Proofs.Document.File
