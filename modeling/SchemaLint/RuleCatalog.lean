import SchemaLint.Issue

/-! The catalog of style rules, for display. -/

namespace SchemaLint

/-- A style rule as the catalog shows it. -/
structure RuleDescription where
  name : String
  rule : Rule
  description : String

/-- A described rule has the fixed severity of the rule. -/
def RuleDescription.severity (d : RuleDescription) : Severity :=
  d.rule.severity

/-- Every rule but that of structural faults, in the order of display. -/
def ruleCatalog : List RuleDescription := [
  ⟨"Syntax Declaration", .syntaxDeclaration, "Files must declare syntax version"⟩,
  ⟨"Package Name", .packageDeclaration, "Package should be declared"⟩,
  ⟨"File Structure", .fileStructure, "Syntax is declared before the package"⟩,
  ⟨"PascalCase Messages", .messageNamePascalCase, "Message names use PascalCase"⟩,
  ⟨"PascalCase Enums", .enumNamePascalCase, "Enum names use PascalCase"⟩,
  ⟨"snake_case Fields", .fieldNameSnakeCase, "Field names use snake_case"⟩,
  ⟨"UPPER_SNAKE_CASE Enums", .enumValueUpperSnakeCase, "Enum values use UPPER_SNAKE_CASE"⟩,
  ⟨"Enum UNSPECIFIED", .enumFirstValueUnspecified,
    "First enum value should be UNSPECIFIED = 0"⟩,
  ⟨"Import Ordering", .importOrdering, "Public imports come first"⟩,
  ⟨"Service Comments", .serviceComment, "Services should have comments"⟩,
  ⟨"RPC Comments", .rpcComment, "RPCs should have comments"⟩,
  ⟨"Line Length", .maxLineLength, "Lines should not exceed 80 characters"⟩,
  ⟨"Trailing Newline", .trailingNewline, "Files should end with a newline"⟩]

end SchemaLint
