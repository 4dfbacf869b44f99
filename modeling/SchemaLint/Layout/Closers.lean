import SchemaLint.Line.Comment
import SchemaLint.Line.Shape
import SchemaLint.Pass

/-! Closing braces. A closing brace after a statement moves to a line of its own. -/

namespace SchemaLint.Layout
open SchemaLint.Text SchemaLint.Line

/-- The brace-free statement at the start of a line and the closing brace that is all that
follows it. -/
def statementAndCloser? (trimmed : List Char) : Option (List Char × List Char) :=
  let isBrace := fun c => c == '{' || c == '}'
  let statement := trimEnd (trimmed.takeWhile (!isBrace ·))
  let closer := trimmed.dropWhile (!isBrace ·)
  if isCloser closer && statement.getLast? = some ';' then some (statement, closer) else none

/-- One line; the state tells whether a block comment is open. -/
def splitCloser (inComment : Bool) (line : List Char) : Bool × List (List Char) :=
  let trimmed := trim line
  let lines :=
    if inComment || isComment trimmed then [line]
    else match statementAndCloser? trimmed with
      | some (statement, closer) => [statement, closer]
      | none => [line]
  (blockAfter inComment trimmed, lines)

/-- The lines with each closing brace that follows a statement on its own line. -/
def splitClosers (lines : List (List Char)) : List (List Char) :=
  (Pass.run splitCloser false lines).2

end SchemaLint.Layout
