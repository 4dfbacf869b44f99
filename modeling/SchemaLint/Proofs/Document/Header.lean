import SchemaLint.Proofs.Document.Report
import SchemaLint.Proofs.Style.Header

/-! The rules on the header over a well-formed source. Package statements are what they seem, but a
line counts as a syntax declaration if it only begins with that keyword: so do fields of a type and
values of a name that begins so, at any depth. -/

namespace SchemaLint.Document
open SchemaLint.Text SchemaLint.Schema SchemaLint.Style
open SchemaLint.Line hiding Opener

/-- The lines of the statements that pass a test, those inside blocks too. -/
def Body.linesOf {place : Place} (p : Leaf → Bool) (n : Nat) : Body place → List Nat
  | done _ => []
  | leaf gap l _ _ rest =>
    (if p l then [n + gap.length] else []) ++ rest.linesOf p (n + gap.length + 1)
  | block gap _ _ _ body _ rest =>
    body.linesOf p (n + gap.length + 1) ++ rest.linesOf p (n + gap.length + 1 + body.height + 1)

/-- The text begins with the keyword of a syntax declaration, and may go on. -/
def beginsSyntax (text : List Char) : Bool :=
  "syntax".toList.isPrefixOf text

/-- A syntax statement, a field without a label whose type begins with the keyword, or a value whose
name does. -/
def Leaf.startsSyntax : Leaf → Bool
  | header (.syntaxDecl _) => true
  | field ⟨none, .path type, _, _⟩ => beginsSyntax type.first.text
  | value v => beginsSyntax v.name.text
  | _ => false

section
variable {lead : List Char} {p : Leaf → Bool}

end

end SchemaLint.Document
