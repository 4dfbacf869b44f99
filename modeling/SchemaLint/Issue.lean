/-! Issues: what a check reports, where, and how severe it is. The severity of a rule is fixed;
an issue carries its own so that a report can be built from any issues. -/

namespace SchemaLint

inductive Severity
  | error | warning | info
  deriving DecidableEq, Repr

namespace Severity

def all : List Severity := [.error, .warning, .info]

def word : Severity → String
  | .error => "error"
  | .warning => "warning"
  | .info => "info"

def ofWord? (w : String) : Option Severity :=
  all.find? (·.word == w)

end Severity

/-- The rules that can be broken. -/
inductive Rule
  | syntaxError
  | trailingNewline
  | maxLineLength
  | syntaxDeclaration
  | packageDeclaration
  | fileStructure
  | messageNamePascalCase
  | enumNamePascalCase
  | enumValueUpperSnakeCase
  | enumFirstValueUnspecified
  | fieldNameSnakeCase
  | serviceComment
  | rpcComment
  | importOrdering
  deriving DecidableEq, Repr

namespace Rule

def all : List Rule :=
  [.syntaxError, .trailingNewline, .maxLineLength, .syntaxDeclaration, .packageDeclaration,
    .fileStructure, .messageNamePascalCase, .enumNamePascalCase, .enumValueUpperSnakeCase,
    .enumFirstValueUnspecified, .fieldNameSnakeCase, .serviceComment, .rpcComment,
    .importOrdering]

def word : Rule → String
  | .syntaxError => "syntax-error"
  | .trailingNewline => "trailing-newline"
  | .maxLineLength => "max-line-length"
  | .syntaxDeclaration => "syntax-declaration"
  | .packageDeclaration => "package-declaration"
  | .fileStructure => "file-structure"
  | .messageNamePascalCase => "message-name-pascal-case"
  | .enumNamePascalCase => "enum-name-pascal-case"
  | .enumValueUpperSnakeCase => "enum-value-upper-snake-case"
  | .enumFirstValueUnspecified => "enum-first-value-unspecified"
  | .fieldNameSnakeCase => "field-name-snake-case"
  | .serviceComment => "service-comment"
  | .rpcComment => "rpc-comment"
  | .importOrdering => "import-ordering"

def ofWord? (w : String) : Option Rule :=
  all.find? (·.word == w)

def severity : Rule → Severity
  | .trailingNewline | .maxLineLength | .packageDeclaration | .serviceComment | .rpcComment
  | .importOrdering => .warning
  | _ => .error

end Rule

/-- An issue at a line and a column, both counted from one. -/
structure Issue where
  line : Int
  column : Int := 1
  rule : Rule
  message : String
  severity : Severity
  deriving DecidableEq

/-- An issue at the fixed severity of its rule. -/
def Rule.issue (rule : Rule) (line : Int) (message : String) (column : Int := 1) : Issue :=
  { line, column, rule, message, severity := rule.severity }

@[simp] theorem Severity.ofWord?_word (s : Severity) : ofWord? s.word = some s := by
  cases s <;> decide

@[simp] theorem Rule.ofWord?_word (r : Rule) : ofWord? r.word = some r := by
  cases r <;> decide

end SchemaLint
