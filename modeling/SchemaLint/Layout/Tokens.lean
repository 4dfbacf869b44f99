import SchemaLint.Layout.Spacing
import SchemaLint.Line.Comment
import SchemaLint.Pass

/-! Tokens of a source. Depth grows after a line of code that ends in an opening brace and shrinks
with a line that is a closing brace; braces elsewhere do not count. -/

namespace SchemaLint.Layout
open SchemaLint.Text SchemaLint.Line

structure State where
  depth : Nat := 0
  inComment : Bool := false
  /-- An opener without a brace, held back in case the next line is the brace. -/
  held : Option Token := none
  deriving DecidableEq

/-- A closing brace alone, perhaps with a semicolon and a comment. -/
def isClosingLine : List Char → Bool
  | '}' :: s =>
    let rest := match s with
      | ';' :: rest => rest
      | _ => s
    rest = [] || startsWith "//".toList (trimStart rest)
  | _ => false

/-- A line of code that ends in an opening brace, so that what follows is deeper. -/
def Token.deepens (t : Token) : Bool :=
  t.category ≠ .comment && (code t.text).getLast? = some '{'

/-- A block opener whose brace may follow on the next line. -/
def Token.wantsBrace (t : Token) : Bool :=
  t.category = .block && !t.text.contains '{' && !holds "//".toList t.text

def State.emit (s : State) (t : Token) : State × List Token :=
  ({ s with depth := if t.deepens then s.depth + 1 else s.depth }, [t])

/-- Reads a line that is no brace for a held opener, and is not blank outside block comments. -/
def State.read (s : State) (trimmed : List Char) : State × List Token :=
  if s.inComment || opensBlock trimmed then
    ({ s with inComment := blockAfter s.inComment trimmed }, [⟨trimmed, s.depth, .comment⟩])
  else if isClosingLine trimmed then
    ({ s with depth := s.depth - 1 }, [⟨trimmed, s.depth - 1, .close⟩])
  else
    let (category, text) := readLine trimmed
    let token : Token := ⟨text, s.depth, category⟩
    if token.wantsBrace then ({ s with held := some token }, []) else s.emit token

/-- One line. Blank lines count inside block comments only. -/
def step (s : State) (line : List Char) : State × List Token :=
  let trimmed := trim line
  match s.held with
  | none => if trimmed = [] && !s.inComment then (s, []) else s.read trimmed
  | some opener =>
    if trimmed = [] then (s, [])
    else
      let s := { s with held := none }
      if trimmed = ['{'] then s.emit { opener with text := opener.text ++ " \x7b".toList }
      else
        let (s, tokens) := s.read trimmed
        (s, opener :: tokens)

def tokens (lines : List (List Char)) : List Token :=
  let (s, tokens) := Pass.run step {} lines
  tokens ++ s.held.toList

end SchemaLint.Layout
