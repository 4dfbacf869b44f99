import SchemaLint.Issue
import SchemaLint.Layout.Token
import SchemaLint.Text.Quoted

/-! Words for rules, severities and categories, read from text. -/

namespace SchemaLint
open SchemaLint.Text

/-- A word that stands for nothing in its set. -/
inductive UnknownWord
  | rule (word : List CodePoint)
  | severity (word : List CodePoint)
  | category (word : List CodePoint)
  deriving DecidableEq

def UnknownWord.message : UnknownWord → String
  | .rule word => String.ofList (quoted word) ++ " is not a valid RuleId"
  | .severity word => String.ofList (quoted word) ++ " is not a valid ValidationSeverity"
  | .category word => String.ofList (quoted word) ++ " is not a valid FormatCategory"

def string? (word : List CodePoint) : Option String :=
  (chars? word).map String.ofList

def Rule.read (word : List CodePoint) : Except UnknownWord Rule :=
  match (string? word).bind Rule.ofWord? with
  | some rule => .ok rule
  | none => .error (.rule word)

def Severity.read (word : List CodePoint) : Except UnknownWord Severity :=
  match (string? word).bind Severity.ofWord? with
  | some severity => .ok severity
  | none => .error (.severity word)

def Layout.Category.read (word : List CodePoint) : Except UnknownWord Layout.Category :=
  match (string? word).bind Layout.Category.ofWord? with
  | some category => .ok category
  | none => .error (.category word)

end SchemaLint
