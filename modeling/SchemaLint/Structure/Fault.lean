import SchemaLint.Issue
import SchemaLint.Line.Shape

/-! Structural faults: what is wrong with the braces and statements of a source. -/

namespace SchemaLint.Structure
open SchemaLint.Line

/-- A block and the line of its opener. A nameless block has the empty name. -/
structure Block where
  kind : BlockKind
  name : List Char
  line : Nat
  deriving DecidableEq

def Block.label (b : Block) : String :=
  if b.name = [] then b.kind.word
  else b.kind.word ++ " \"" ++ String.ofList b.name ++ "\""

inductive Cause
  | fieldLacksSemicolon
  | fieldLacksNumber
  | valueLacksSemicolon
  | valueLacksNumber
  | missingName (kind : BlockKind)
  | missingBrace (block : Block)
  | unexpectedClose
  | unclosed (block : Block)
  | malformedRpc
  | unknownSyntax (value : List Char)
  | trailingContent (rest : List Char)
  | unrecognized (code : List Char)
  | lacksSemicolon
  deriving DecidableEq

/-- The most characters of a statement that a message shows. -/
def previewLength : Nat := 40

/-- The start of a statement, with dots for what is left out. -/
def preview (code : List Char) : String :=
  String.ofList (code.take previewLength) ++ if code.length > previewLength then "..." else ""

def Cause.message : Cause → String
  | .fieldLacksSemicolon => "Field declaration is missing a trailing semicolon."
  | .fieldLacksNumber => "Field declaration is missing a valid field number."
  | .valueLacksSemicolon => "Enum value is missing a trailing semicolon."
  | .valueLacksNumber => "Enum value is missing a valid number assignment."
  | .missingName kind => kind.word ++ " declaration is missing a name."
  | .missingBrace block => block.label ++ " is missing opening brace \"\x7b\"."
  | .unexpectedClose => "Unexpected closing brace \"\x7d\"."
  | .unclosed block => "Unclosed " ++ block.label ++ ": missing closing brace \"\x7d\"."
  | .malformedRpc =>
    "Malformed rpc declaration. Expected: rpc Name(Request) returns (Response);"
  | .unknownSyntax value =>
    "Invalid syntax value \"" ++ String.ofList value ++ "\". Must be \"proto2\" or \"proto3\"."
  | .trailingContent rest =>
    "Unexpected content \"" ++ String.ofList rest ++ "\" after semicolon."
  | .unrecognized code => "Unrecognized statement: \"" ++ preview code ++ "\"."
  | .lacksSemicolon => "Statement is missing a trailing semicolon."

/-- A fault at a line and a column, both counted from one. -/
structure Fault where
  line : Nat
  column : Nat := 1
  cause : Cause
  deriving DecidableEq

def Fault.issue (f : Fault) : Issue :=
  Rule.syntaxError.issue f.line f.cause.message f.column

/-- The opener of a block is not followed by its brace; the fault is the opener's. -/
def Block.lacksBrace (b : Block) : Fault :=
  { line := b.line, cause := .missingBrace b }

/-- The source ends before the block does; the fault is the opener's. -/
def Block.staysOpen (b : Block) : Fault :=
  { line := b.line, cause := .unclosed b }

end SchemaLint.Structure
