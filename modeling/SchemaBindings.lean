import SchemaBindings.Bindings.Accessor
import SchemaBindings.Bindings.Declaration
import SchemaBindings.Bindings.Expr
import SchemaBindings.Bindings.Field
import SchemaBindings.Bindings.File
import SchemaBindings.Bindings.Generate
import SchemaBindings.Bindings.Mask
import SchemaBindings.Bindings.Name
import SchemaBindings.Bindings.Resolve
import SchemaBindings.Command.Flags
import SchemaBindings.Command.Run
import SchemaBindings.Compile.Event
import SchemaBindings.Compile.Run
import SchemaBindings.Contract.Check
import SchemaBindings.Contract.Rule
import SchemaBindings.Contract.Text
import SchemaBindings.Delivery.FileTree
import SchemaBindings.Delivery.Path
import SchemaBindings.Delivery.Sink
import SchemaBindings.Document.Decode
import SchemaBindings.Document.Encode
import SchemaBindings.Document.Format
import SchemaBindings.Document.Frame
import SchemaBindings.Document.Json
import SchemaBindings.Document.Problem
import SchemaBindings.Document.Read
import SchemaBindings.Document.Record
import SchemaBindings.Document.Request
import SchemaBindings.Document.Tree
import SchemaBindings.Document.Yaml.Meaning
import SchemaBindings.Document.Yaml.Node
import SchemaBindings.Document.Yaml.Position
import SchemaBindings.Document.Yaml.ScalarText
import SchemaBindings.Document.Yaml.Token
import SchemaBindings.Layout.Occupancy
import SchemaBindings.Layout.Slot
import SchemaBindings.Main
import SchemaBindings.Number.Binary
import SchemaBindings.Number.Numeral
import SchemaBindings.Number.Power
import SchemaBindings.Number.Shortest
import SchemaBindings.Number.Written
import SchemaBindings.Proofs.Layout.SlotOrder
import SchemaBindings.Proofs.Outcome
import SchemaBindings.Proofs.Schema.Links
import SchemaBindings.Schema.Failure
import SchemaBindings.Schema.Graph
import SchemaBindings.Schema.Kind
import SchemaBindings.Schema.Node
import SchemaBindings.Schema.Value
import SchemaBindings.Settings.Basic
import SchemaBindings.Settings.File
import SchemaBindings.Settings.Parameters
import SchemaBindings.Text.Base64
import SchemaBindings.Text.Blank
import SchemaBindings.Text.Digits
import SchemaBindings.Text.Integer
import SchemaBindings.Text.Printable
import SchemaBindings.Text.Quoted
import SchemaBindings.Text.Utf8
import SchemaBindings.Proofs.Layout.Occupancy
import SchemaBindings.Bindings.Code
import SchemaBindings.Proofs.Bindings.Execution
import SchemaBindings.Proofs.Bindings.Generation
import SchemaBindings.Proofs.Bindings.GroupAccess
import SchemaBindings.Proofs.Bindings.UnionAccess
import SchemaBindings.Proofs.Schema.References
import SchemaBindings.Proofs.Bindings.FileGeneration
import SchemaBindings.Proofs.Bindings.Imports
import SchemaBindings.Proofs.Bindings.DefinedObjects
import SchemaBindings.Proofs.Layout.FieldOrder
import SchemaBindings.Proofs.Bindings.EmbeddedSchemas
import SchemaBindings.Proofs.Compile.FailedRun
import SchemaBindings.Proofs.Schema.Depth
import SchemaBindings.Proofs.Bindings.Locality
import SchemaBindings.Proofs.Compile.DeliveredFiles
import SchemaBindings.Compile.Pool
import SchemaBindings.Proofs.Compile.Schedules
import SchemaBindings.Proofs.Compile.SequentialSchedule
import SchemaBindings.Proofs.Bindings.UnionTags
import SchemaBindings.Proofs.Contract.Admission
import SchemaBindings.Proofs.Contract.RequiredMembers
import SchemaBindings.Proofs.Bindings.DefaultMasks
import SchemaBindings.Proofs.Bindings.IntegerRanges
import SchemaBindings.Proofs.Bindings.FloatMasks
import SchemaBindings.Proofs.Text.Brackets
import SchemaBindings.Proofs.Bindings.BalancedCode
import SchemaBindings.Proofs.Bindings.BalancedText
import SchemaBindings.Proofs.Bindings.BalancedFiles
import SchemaBindings.Proofs.Delivery.LexicalPath
import SchemaBindings.Proofs.Compile.DirectoryRuns
import SchemaBindings.Proofs.Bindings.ScopedNames
import SchemaBindings.Proofs.Layout.OutermostSlots
import SchemaBindings.Proofs.Number.Rounding
import SchemaBindings.Proofs.Bindings.ScalarText
import SchemaBindings.Proofs.Bindings.MaskedAccess
import SchemaBindings.Proofs.Text.Base64
import SchemaBindings.Proofs.Document.WellFormed
import SchemaBindings.Proofs.Bindings.MemberTables
import SchemaBindings.Proofs.Bindings.MemberNames
import SchemaBindings.Proofs.Bindings.ObjectKeys
import SchemaBindings.Proofs.Bindings.SchemaOrder
import SchemaBindings.Proofs.Number.Shortest
import SchemaBindings.Proofs.Number.Spelling
import SchemaBindings.Proofs.Number.RoundTrip
import SchemaBindings.Proofs.Bindings.LiteralText
import SchemaBindings.Proofs.Text.ObjectLines
import SchemaBindings.Proofs.Bindings.EnumConstants
import SchemaBindings.Proofs.Bindings.FreeNames
import SchemaBindings.Proofs.Bindings.ViewCode
import SchemaBindings.Proofs.Bindings.SharedReading
import SchemaBindings.Proofs.Bindings.ReachedFiles
import SchemaBindings.Proofs.Bindings.RequestImports
import SchemaBindings.Proofs.Bindings.ClassTexts
import SchemaBindings.Proofs.Text.StringLiteral
import SchemaBindings.Proofs.Bindings.QuotedNames
import SchemaBindings.Proofs.Document.JsonText
import SchemaBindings.Proofs.Document.Restoring
import SchemaBindings.Proofs.Text.Utf8
import SchemaBindings.Proofs.Document.RoundTrip
import SchemaBindings.Proofs.Layout.Containment
import SchemaBindings.Proofs.Bindings.AccessorNames
import SchemaBindings.Proofs.Bindings.ByteRows
import SchemaBindings.Proofs.Settings.Parameters
import SchemaBindings.Proofs.Settings.Layers
