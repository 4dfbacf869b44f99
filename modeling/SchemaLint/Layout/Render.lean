import SchemaLint.Layout.Closers
import SchemaLint.Layout.Tokens

/-! Canonical layout: two spaces for each level of depth, and blank lines between top-level lines
by what they hold. -/

namespace SchemaLint.Layout
open SchemaLint.Text

/-- A blank line stands between two tokens. Closing braces are followed by one unless another
closing brace follows, runs of header statements end with one, and a block at top level is
preceded by one unless a comment precedes it. -/
def needsBlank (prev cur : Token) : Bool :=
  if cur.depth > 0 then false
  else if prev.category = .close then cur.category ≠ .close
  else if prev.depth > 0 then false
  else if prev.category.isHeader then cur.category ≠ prev.category
  else match cur.category with
    | .block => prev.category ≠ .comment
    | .comment => prev.category ≠ .comment
    | _ => false

def Token.line (t : Token) : List Char :=
  if t.text = [] then [] else List.replicate (2 * t.depth) ' ' ++ t.text

/-- The lines of a token, after the token before it. -/
def lineStep (prev : Option Token) (cur : Token) : Option Token × List (List Char) :=
  (some cur, (if prev.any (needsBlank · cur) then [[]] else []) ++ [cur.line])

def dropFinalBlanks (lines : List (List Char)) : List (List Char) :=
  (lines.reverse.dropWhile (·.isEmpty)).reverse

/-- The text of some tokens; every line ends with a line feed. -/
def render (tokens : List Token) : List Char :=
  (dropFinalBlanks (Pass.run lineStep none tokens).2).flatMap (· ++ ['\n'])

end SchemaLint.Layout
