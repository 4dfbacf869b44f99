import SchemaLint.Text.Class
import SchemaLint.Text.CodePoint

/-! Quoted text for messages. The quote is single unless the text holds single quotes and no
double ones; what does not print is written by number. -/

namespace SchemaLint.Text

/-- The last `width` hexadecimal digits of a number, lower case. -/
def hex (width n : Nat) : List Char :=
  match width with
  | 0 => []
  | width + 1 => hex width (n / 16) ++ [Nat.digitChar (n % 16)]

/-- A code point written by number: two, four or eight digits, the fewest that suffice. -/
def numbered (n : Nat) : List Char :=
  if n < 0x100 then '\\' :: 'x' :: hex 2 n
  else if n < 0x10000 then '\\' :: 'u' :: hex 4 n
  else '\\' :: 'U' :: hex 8 n

def quotedPoint (quote : Char) : CodePoint → List Char
  | .char c =>
    if c = quote || c = '\\' then ['\\', c]
    else if c = '\t' then ['\\', 't']
    else if c = '\n' then ['\\', 'n']
    else if c = '\r' then ['\\', 'r']
    else if isPrintable c then [c]
    else numbered c.toNat
  | p => numbered p.toNat

/-- The quote that spares escapes where it can. -/
def quoteFor (s : List CodePoint) : Char :=
  if s.contains (.char '\'') && !s.contains (.char '"') then '"' else '\''

def quoted (s : List CodePoint) : List Char :=
  let quote := quoteFor s
  quote :: s.flatMap (quotedPoint quote) ++ [quote]

end SchemaLint.Text
