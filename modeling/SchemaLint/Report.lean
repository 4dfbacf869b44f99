import SchemaLint.Issue

/-! Reports: issues in the order of their places, apart by severity. Issues at one place keep the
order in which they came. -/

namespace SchemaLint

structure Report where
  errors : List Issue
  warnings : List Issue
  info : List Issue
  deriving DecidableEq

/-- The place of one issue does not come after that of another. -/
def Issue.precedes (a b : Issue) : Bool :=
  a.line < b.line || (a.line == b.line && a.column ≤ b.column)

namespace Report

def valid (r : Report) : Bool :=
  r.errors.isEmpty

def select (severity : Severity) (ordered : List Issue) : List Issue :=
  ordered.filter (·.severity = severity)

def ofIssues (issues : List Issue) : Report :=
  let ordered := issues.mergeSort Issue.precedes
  { errors := select .error ordered
    warnings := select .warning ordered
    info := select .info ordered }

end Report

end SchemaLint
