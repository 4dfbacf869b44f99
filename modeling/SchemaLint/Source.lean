import SchemaLint.Layout.Render
import SchemaLint.Report
import SchemaLint.Structure.Scan
import SchemaLint.Style.Scan

/-! Sources as a whole: validation and formatting. -/

namespace SchemaLint.Source

/-- The lines of a source. A line feed ends a line, so a source that ends with one has an empty
last line. -/
def lines (content : List Char) : List (List Char) :=
  content.splitOn '\n'

/-- The report on a source: its style findings, then its structural faults, in order of place. -/
def validate (content : List Char) : Except Numeral.Fault Report :=
  (Style.check content (lines content)).map fun findings =>
    Report.ofIssues
      (findings.map Style.Finding.issue ++
        (Structure.check (lines content)).map Structure.Fault.issue)

def format (content : List Char) : List Char :=
  Layout.render (Layout.tokens (Layout.splitClosers (lines content)))

end SchemaLint.Source
