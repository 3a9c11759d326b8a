import ProtoSchema.Text.Lines
import ProtoSchema.Text.Bytes
import ProtoSchema.Schema.Comment
import ProtoSchema.Schema.Setting
import ProtoSchema.Schema.ScalarType
import ProtoSchema.Schema.Field
import ProtoSchema.Schema.Enumeration
import ProtoSchema.Schema.Message
import ProtoSchema.Schema.Service
import ProtoSchema.Schema.Import
import ProtoSchema.Schema.File
import ProtoSchema.Schema.Node
import ProtoSchema.Validation.Problem
import ProtoSchema.Validation.Repeats
import ProtoSchema.Validation.Validate
import ProtoSchema.Trace
import ProtoSchema.Output.Sink
import ProtoSchema.Output.Writer
import ProtoSchema.Printing.Config
import ProtoSchema.Printing.Layout
import ProtoSchema.Printing.Declarations
import ProtoSchema.Printing.Printer
import ProtoSchema.Json.Literal
import ProtoSchema.Json.Double
import ProtoSchema.Json.Number
import ProtoSchema.Json.Value
import ProtoSchema.Json.Doc
import ProtoSchema.Json.Scan
import ProtoSchema.Codec.ReadError
import ProtoSchema.Codec.Decoder
import ProtoSchema.Codec.Record
import ProtoSchema.Codec.Head
import ProtoSchema.Codec.Fields
import ProtoSchema.Codec.Message
import ProtoSchema.Codec.TypeDecl
import ProtoSchema.Codec.Service
import ProtoSchema.Codec.File
import ProtoSchema.Codec.Kind
import ProtoSchema.Proofs.Output.Capacity
import ProtoSchema.Proofs.Output.Indentation
import ProtoSchema.Proofs.Text.PaddedLines
import ProtoSchema.Proofs.Output.Calls
import ProtoSchema.Proofs.Output.Resumption
import ProtoSchema.Proofs.Output.Retries
import ProtoSchema.Proofs.Schema.Additions
import ProtoSchema.Proofs.Schema.CommentText
import ProtoSchema.Proofs.Printing.FlatText
import ProtoSchema.Proofs.Printing.Refinement
import ProtoSchema.Proofs.Printing.ValidOutput
import ProtoSchema.Proofs.Validation.Blame
import ProtoSchema.Proofs.Validation.Growth
import ProtoSchema.Proofs.Validation.Qualification
import ProtoSchema.Proofs.Validation.Lookups
import ProtoSchema.Proofs.Validation.ValueNames
import ProtoSchema.Proofs.Json.Numerals
import ProtoSchema.Proofs.Text.UniqueReading
import ProtoSchema.Proofs.Text.LossyDecoding
import ProtoSchema.Proofs.Printing.Legible
import ProtoSchema.Proofs.Printing.Lines
import ProtoSchema.Proofs.Printing.Statements
import ProtoSchema.Proofs.Printing.Declarations
import ProtoSchema.Proofs.Printing.EnumEntries
import ProtoSchema.Proofs.Printing.Injectivity
import ProtoSchema.Proofs.Printing.CommentLines
import ProtoSchema.Proofs.Json.Spelling
import ProtoSchema.Proofs.Json.WrittenText
import ProtoSchema.Proofs.Json.Findings
import ProtoSchema.Proofs.Json.Composition
import ProtoSchema.Proofs.Json.OpenObject
import ProtoSchema.Proofs.Codec.Records
import ProtoSchema.Proofs.Codec.RoundTrip
import ProtoSchema.Proofs.Codec.RecordForms
import ProtoSchema.Proofs.Codec.MemberOrder
import ProtoSchema.Proofs.Codec.Positional
import ProtoSchema.Proofs.Codec.FirstProblem
import ProtoSchema.Proofs.Codec.Normalization
import ProtoSchema.Proofs.Json.Doubles
import ProtoSchema.Proofs.Json.IntegerRange
import ProtoSchema.Proofs.Codec.IntegerFields
import ProtoSchema.Proofs.Codec.Room
import ProtoSchema.Proofs.Codec.TaggedForms
import ProtoSchema.Proofs.Codec.StringLiterals
import ProtoSchema.Proofs.Json.Doubles
