import BoardSchema.Bits
import BoardSchema.Command.Arguments
import BoardSchema.Command.Run
import BoardSchema.Compilation
import BoardSchema.Error
import BoardSchema.Field.Basic
import BoardSchema.Field.Builder
import BoardSchema.Field.Metadata
import BoardSchema.Files.Compile
import BoardSchema.Files.Path
import BoardSchema.Files.Program
import BoardSchema.Files.Tree
import BoardSchema.Image.Compression
import BoardSchema.Image.Error
import BoardSchema.Image.PublicKey
import BoardSchema.Image.Signature
import BoardSchema.Image.Slot
import BoardSchema.Json.Number
import BoardSchema.Json.Printer
import BoardSchema.Json.Reader
import BoardSchema.Json.Text
import BoardSchema.Json.Value
import BoardSchema.Layout.Basic
import BoardSchema.Layout.Names
import BoardSchema.Layout.State
import BoardSchema.Line.Event
import BoardSchema.Line.Pragma
import BoardSchema.Main
import BoardSchema.Notice
import BoardSchema.Numeral
import BoardSchema.Output.Document
import BoardSchema.Output.FieldText
import BoardSchema.Output.Rendering
import BoardSchema.Output.SchemaJson
import BoardSchema.Rules.Basic
import BoardSchema.Rules.Json
import BoardSchema.Rules.Substitution
import BoardSchema.Source.Document
import BoardSchema.Source.Line
import BoardSchema.Template.Expansion
import BoardSchema.Template.Table
import BoardSchema.Text.Blank
import BoardSchema.Text.Lines
import BoardSchema.Text.Search
import BoardSchema.Proofs.Layout.Outline
import BoardSchema.Proofs.Layout.Reading
import BoardSchema.Proofs.Layout.Nesting
import BoardSchema.Proofs.Layout.Tiling
import BoardSchema.Proofs.Field.Builder
import BoardSchema.Proofs.Layout.Lenient
import BoardSchema.Proofs.Layout.Order
import BoardSchema.Proofs.Layout.Extents
import BoardSchema.Proofs.Template.Expansion
import BoardSchema.Proofs.Template.ShownSize
import BoardSchema.Proofs.Bits.Window
import BoardSchema.Proofs.Bits.Codec
import BoardSchema.Proofs.Numeral
import BoardSchema.Proofs.Image.RoundTrip
import BoardSchema.Proofs.Image.Parsing
import BoardSchema.Proofs.Line.Pieces
import BoardSchema.Proofs.Layout.BitGroups
import BoardSchema.Proofs.Layout.OpenFiles
import BoardSchema.Proofs.Layout.UnderWay
import BoardSchema.Proofs.Layout.Padding
import BoardSchema.Proofs.Layout.Hoisting
import BoardSchema.Proofs.Layout.Restoring
import BoardSchema.Proofs.Output.Satellites
import BoardSchema.Proofs.Layout.IncludeFiles
import BoardSchema.Proofs.Layout.Widths
import BoardSchema.Proofs.Layout.Abstraction
import BoardSchema.Proofs.Template.Expander
import BoardSchema.Proofs.Template.Leaves
import BoardSchema.Proofs.Source.Numbering
import BoardSchema.Proofs.Layout.Numbering
import BoardSchema.Proofs.Template.Numbering
import BoardSchema.Proofs.Numbering
import BoardSchema.Proofs.Layout.Lines
import BoardSchema.Proofs.Source.Brackets
import BoardSchema.Proofs.Template.Lines
import BoardSchema.Proofs.Lines
import BoardSchema.Proofs.Layout.Names
import BoardSchema.Proofs.Names
import BoardSchema.Proofs.Output.Targets
import BoardSchema.Proofs.Files.Path
import BoardSchema.Proofs.Files.Tree
import BoardSchema.Proofs.Files.Documents
import BoardSchema.Proofs.Template.Collecting
import BoardSchema.Proofs.Text.Replacing
import BoardSchema.Proofs.Text.Trimming
import BoardSchema.Proofs.Template.Placeholders
import BoardSchema.Proofs.Rules.WholeWords
import BoardSchema.Proofs.Template.Names
import BoardSchema.Proofs.Line.Parts
import BoardSchema.Proofs.Line.Columns
import BoardSchema.Proofs.Field.Inputs
import BoardSchema.Proofs.Field.Waiting
import BoardSchema.Proofs.Field.Recovery
import BoardSchema.Proofs.Field.History
import BoardSchema.Proofs.Field.Attaching
import BoardSchema.Proofs.Field.HeaderCalls
import BoardSchema.Proofs.Field.BitWidths
import BoardSchema.Proofs.Output.Lengths
import BoardSchema.Proofs.Output.Indentation
import BoardSchema.Proofs.Layout.Spots
import BoardSchema.Proofs.Output.Corrections
import BoardSchema.Proofs.Bits.Alignment
import BoardSchema.Proofs.Image.Writing
import BoardSchema.Proofs.Source.Bindings
import BoardSchema.Proofs.Text.OneLine
import BoardSchema.Proofs.Rules.Lines
import BoardSchema.Proofs.Field.Unbroken
import BoardSchema.Proofs.Source.Unbroken
import BoardSchema.Proofs.Layout.Derivation
import BoardSchema.Proofs.Output.Blocks
import BoardSchema.Proofs.Output.OneLine
import BoardSchema.Proofs.Files.Adding
import BoardSchema.Proofs.Command.Running
import BoardSchema.Proofs.Command.RuleFile
import BoardSchema.Proofs.Layout.Positions
import BoardSchema.Proofs.Layout.OpenPositions
import BoardSchema.Proofs.Json.Scanning
import BoardSchema.Proofs.Json.Printing
import BoardSchema.Proofs.Rules.RoundTrip
