import SchemaLint.Issue

/-! Style findings: what the naming, comment, header and layout conventions ask for. -/

namespace SchemaLint.Style

def maxLineLength : Nat := 80

inductive Cause
  | noFinalNewline
  | longLine (length : Nat)
  | messageName (name : List Char)
  | enumName (name : List Char)
  | valueName (name : List Char)
  | firstValue (name : List Char)
  | fieldName (name : List Char)
  | serviceUncommented
  | rpcUncommented
  | noSyntax
  | noPackage
  | packageBeforeSyntax
  | lateImport
  deriving DecidableEq

namespace Cause

def rule : Cause → Rule
  | .noFinalNewline => .trailingNewline
  | .longLine _ => .maxLineLength
  | .messageName _ => .messageNamePascalCase
  | .enumName _ => .enumNamePascalCase
  | .valueName _ => .enumValueUpperSnakeCase
  | .firstValue _ => .enumFirstValueUnspecified
  | .fieldName _ => .fieldNameSnakeCase
  | .serviceUncommented => .serviceComment
  | .rpcUncommented => .rpcComment
  | .noSyntax => .syntaxDeclaration
  | .noPackage => .packageDeclaration
  | .packageBeforeSyntax => .fileStructure
  | .lateImport => .importOrdering

def message : Cause → String
  | .noFinalNewline => "File should end with a trailing newline."
  | .longLine length =>
    "Line exceeds " ++ toString maxLineLength ++ " characters (" ++ toString length ++ ")."
  | .messageName name => "Message name \"" ++ String.ofList name ++ "\" should be PascalCase."
  | .enumName name => "Enum name \"" ++ String.ofList name ++ "\" should be PascalCase."
  | .valueName name => "Enum value \"" ++ String.ofList name ++ "\" should be UPPER_SNAKE_CASE."
  | .firstValue name =>
    "Enum \"" ++ String.ofList name ++
      "\" should have an UNSPECIFIED value as the first entry (= 0)."
  | .fieldName name => "Field name \"" ++ String.ofList name ++ "\" should be snake_case."
  | .serviceUncommented => "Service should have a comment."
  | .rpcUncommented => "RPC should have a comment."
  | .noSyntax =>
    "File should start with a syntax declaration (e.g., syntax = \"proto3\";)."
  | .noPackage => "File should declare a package."
  | .packageBeforeSyntax => "Package declaration should come after the syntax declaration."
  | .lateImport => "Public imports should come before other imports."

end Cause

/-- A finding at a line and a column, both counted from one. -/
structure Finding where
  line : Nat
  column : Nat := 1
  cause : Cause
  deriving DecidableEq

def Finding.issue (f : Finding) : Issue :=
  f.cause.rule.issue f.line f.cause.message f.column

end SchemaLint.Style
