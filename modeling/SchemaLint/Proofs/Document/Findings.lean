import SchemaLint.Proofs.Document.Tree
import SchemaLint.Style.Scan

/-! What the conventions ask of a well-formed source, read off its tree: names, the first values of
enums, comments before services and methods, and the order of imports. -/

namespace SchemaLint.Style

/-- The rules on declarations and imports; the others are about the header and the layout. -/
def declarationRules : List Rule :=
  [.messageNamePascalCase, .enumNamePascalCase, .enumValueUpperSnakeCase,
    .enumFirstValueUnspecified, .fieldNameSnakeCase, .serviceComment, .rpcComment, .importOrdering]

def Finding.ofDeclaration (f : Finding) : Bool :=
  declarationRules.contains f.cause.rule

end SchemaLint.Style

namespace SchemaLint.Document
open SchemaLint.Style
open SchemaLint.Line (isPascalCase isSnakeCase isUpperSnakeCase)
open SchemaLint.Schema (Value Opener)

/-- The line before is a comment. -/
def noted (gap : List Filler) : Bool :=
  gap.getLast?.any Filler.isNote

/-- The findings of a statement on line `line`, by whether a comment stands before it. -/
def Leaf.findings (line : Nat) (noted : Bool) : Leaf → List Finding
  | field f => nameFindings isSnakeCase .fieldName line f.name.text
  | value v => nameFindings isUpperSnakeCase .valueName line v.name.text
  | method _ => if noted then [] else [{ line, cause := .rpcUncommented }]
  | _ => []

def openerFindings (line : Nat) (noted : Bool) : Opener → List Finding
  | .block .message name => nameFindings isPascalCase .messageName line name.text
  | .block .enum name => nameFindings isPascalCase .enumName line name.text
  | .block .service _ => if noted then [] else [{ line, cause := .serviceUncommented }]
  | .block .oneof _ => []
  | .method _ => if noted then [] else [{ line, cause := .rpcUncommented }]

def Leaf.value? : Leaf → Option Value
  | value v => some v
  | _ => none

/-- The values of a body with their lines, those of its blocks left out. -/
def Body.values {place : Place} (n : Nat) : Body place → List (Nat × Value)
  | done _ => []
  | leaf gap l _ _ rest =>
    (l.value?.map fun v => (n + gap.length, v)).toList ++ rest.values (n + gap.length + 1)
  | block gap _ _ _ body _ rest => rest.values (n + gap.length + 1 + body.height + 1)

/-- The value is zero, and its name says that it is none. -/
def isUnspecified (v : Value) : Bool :=
  v.number.digits.all (· == '0') && "UNSPECIFIED".toList.isSuffixOf v.name.text

/-- The finding of a block that ends, at its first line: an enum is to start with the value for
none. -/
def closerFindings (line : Nat) (values : List (Nat × Value)) : Opener → List Finding
  | .block .enum name =>
    match values with
    | [] => []
    | (_, v) :: _ => if isUnspecified v then [] else [{ line, cause := .firstValue name.text }]
  | _ => []

/-- The findings of the lines from line `n` on. -/
def Body.findings {place : Place} (n : Nat) : Body place → List Finding
  | done _ => []
  | leaf gap l _ _ rest =>
    l.findings (n + gap.length) (noted gap) ++ rest.findings (n + gap.length + 1)
  | block gap o _ _ body _ rest =>
    let line := n + gap.length
    openerFindings line (noted gap) o ++ (body.findings (line + 1) ++
      (closerFindings line (body.values (line + 1)) o ++
        rest.findings (line + 1 + body.height + 1)))

def Leaf.import? : Leaf → Option Bool
  | header (.importDecl _) => some false
  | header (.publicImport _) => some true
  | _ => none

/-- The lines of the imports of a body, and which are public. -/
def Body.imports {place : Place} (n : Nat) : Body place → List (Nat × Bool)
  | done _ => []
  | leaf gap l _ _ rest =>
    (l.import?.map fun isPublic => (n + gap.length, isPublic)).toList ++
      rest.imports (n + gap.length + 1)
  | block gap _ _ _ body _ rest => rest.imports (n + gap.length + 1 + body.height + 1)

/-- Public imports that stand after another import. -/
def lateImports (imports : List (Nat × Bool)) : List Finding :=
  ((imports.dropWhile Prod.snd).filter Prod.snd).map fun i => { line := i.1, cause := .lateImport }

/-- All findings of the rules on declarations and imports. -/
def findings (d : Document) : List Finding :=
  Body.findings 1 d ++ lateImports (Body.imports 1 d)

/-- Every number of an enum value can be read. -/
def Body.Readable {place : Place} : Body place → Prop
  | done _ => True
  | leaf _ l _ _ rest =>
    (∀ v ∈ l.value?, v.number.digits.length ≤ Numeral.maxDigits) ∧ rest.Readable
  | block _ _ _ _ body _ rest => body.Readable ∧ rest.Readable

end SchemaLint.Document
