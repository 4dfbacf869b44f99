/-! Tokens of the canonical layout: one for each line of output that is not blank by policy. -/

namespace SchemaLint.Layout

/-- What a line holds. -/
inductive Category
  | syntaxDecl | packageDecl | importDecl | optionDecl
  | comment | block | rpc | field | enumValue | reserved | close | other
  deriving DecidableEq, Repr

namespace Category

def all : List Category :=
  [.syntaxDecl, .packageDecl, .importDecl, .optionDecl, .comment, .block, .rpc, .field,
    .enumValue, .reserved, .close, .other]

def word : Category → String
  | .syntaxDecl => "syntax"
  | .packageDecl => "package"
  | .importDecl => "import"
  | .optionDecl => "option"
  | .comment => "comment"
  | .block => "block"
  | .rpc => "rpc"
  | .field => "field"
  | .enumValue => "enumval"
  | .reserved => "reserved"
  | .close => "close"
  | .other => "other"

def ofWord? (w : String) : Option Category :=
  all.find? (·.word == w)

/-- Header statements stand in runs of their own, apart by blank lines. -/
def isHeader : Category → Bool
  | .syntaxDecl | .packageDecl | .importDecl | .optionDecl => true
  | _ => false

@[simp] theorem ofWord?_word (c : Category) : ofWord? c.word = some c := by
  cases c <;> decide

end Category

/-- A line's text in normal spacing, the depth of its block and what it holds. -/
structure Token where
  text : List Char
  depth : Nat
  category : Category
  deriving DecidableEq

end SchemaLint.Layout
