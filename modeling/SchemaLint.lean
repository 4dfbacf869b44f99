import SchemaLint.Json.Writer
import SchemaLint.Service.Body
import SchemaLint.Words
import SchemaLint.Line.Comment
import SchemaLint.Line.Shape
import SchemaLint.Pass
import SchemaLint.Proofs.Text.Trim
import SchemaLint.Proofs.Line.Respacing
import SchemaLint.Proofs.Layout.Remarks
import SchemaLint.Proofs.Layout.Idempotence
import SchemaLint.Proofs.Schema.Canonical
import SchemaLint.Proofs.Line.Code
import SchemaLint.Proofs.Structure.Nesting
import SchemaLint.Proofs.Structure.Balance
import SchemaLint.Proofs.Nesting
import SchemaLint.Proofs.Document.Tree
import SchemaLint.Proofs.Document.Words
import SchemaLint.Proofs.Document.Rows
import SchemaLint.Proofs.Document.Shapes
import SchemaLint.Proofs.Structure.Checks
import SchemaLint.Proofs.Document.Scan
import SchemaLint.Proofs.Document.Damage
import SchemaLint.Proofs.Document.Findings
import SchemaLint.Proofs.Style.Checks
import SchemaLint.Proofs.Document.Style
import SchemaLint.Proofs.Document.Report
import SchemaLint.Proofs.Style.Numerals
import SchemaLint.Proofs.Style.Header
import SchemaLint.Proofs.Document.Header
import SchemaLint.Proofs.Line.Compact
import SchemaLint.Proofs.Line.CompactShapes
import SchemaLint.Proofs.Layout.MethodShape
import SchemaLint.Proofs.Line.Cut
import SchemaLint.Proofs.Structure.Alike
import SchemaLint.Proofs.Structure.Spacing
import SchemaLint.Proofs.Structure.Joints
import SchemaLint.Proofs.Structure.Format
import SchemaLint.Proofs.Structure.QuotedText
import SchemaLint.Proofs.Layout.Edits
import SchemaLint.Proofs.Line.Quotes
import SchemaLint.Proofs.Layout.Literals
import SchemaLint.Proofs.Layout.Indentation
import SchemaLint.Proofs.Layout.BlankLines
import SchemaLint.Proofs.Layout.Closing
import SchemaLint.Proofs.Layout.LineEnds
import SchemaLint.Proofs.Comments
import SchemaLint.Proofs.Report
import SchemaLint.Proofs.Structure.Openers
import SchemaLint.Proofs.Structure.Renumbering
import SchemaLint.Proofs.Structure.Trivia
import SchemaLint.Proofs.Structure.Places
import SchemaLint.Proofs.Style.Places
import SchemaLint.Proofs.Places
import SchemaLint.Proofs.Line.Heading
import SchemaLint.Proofs.Structure.Headings
import SchemaLint.Proofs.Style.Renumbering
import SchemaLint.Proofs.Style.Headings
import SchemaLint.Proofs.BracePlacement
import SchemaLint.Proofs.Submission
import SchemaLint.Proofs.Formatting
import SchemaLint.Proofs.Structure.PlainLines
import SchemaLint.Proofs.Structure.MemberSpacing
import SchemaLint.Proofs.Line.Trailed
import SchemaLint.Proofs.Style.CommentText
import SchemaLint.Proofs.Style.InlineEnums
import SchemaLint.Proofs.Json.Strings
import SchemaLint.Proofs.Layout.Splitting
import SchemaLint.Proofs.Options
