import SchemaLint.Text.Blank
import SchemaLint.Text.Quoted

/-! Decimal numerals: runs of digits of any script, and integers written as text. A numeral has
at most `maxDigits` digits, leading zeros counted. -/

namespace SchemaLint.Numeral
open SchemaLint.Text

/-- The most digits that a numeral may have. -/
def maxDigits : Nat := 4300

/-- Why text is no integer. -/
inductive Fault
  | malformed (text : List CodePoint)
  | overlong (digits : Nat)
  deriving DecidableEq

def Fault.message : Fault → String
  | .malformed text =>
    "invalid literal for int() with base 10: " ++ String.ofList ((quoted text).take 200)
  | .overlong digits =>
    "Exceeds the limit (" ++ toString maxDigits ++
      " digits) for integer string conversion: value has " ++ toString digits ++
      " digits; use sys.set_int_max_str_digits() to increase the limit"

def value (digits : List Char) : Nat :=
  digits.foldl (fun n c => 10 * n + (digitValue? c).getD 0) 0

def read (digits : List Char) : Except Fault Nat :=
  if digits.length ≤ maxDigits then .ok (value digits) else .error (.overlong digits.length)

def signed (negative : Bool) (n : Nat) : Int :=
  if negative then -n else n

def isPlainBlank (c : Char) : Bool :=
  c == ' ' || ('\t' ≤ c && c ≤ '\r')

/-- A code point of a numeral in ASCII: blanks and digits of all scripts are replaced, and what
else is beyond ASCII becomes a character that has no place in a numeral. -/
def plain : CodePoint → Char
  | .lone _ => '?'
  | .char c =>
    if c.toNat < 128 then c
    else if isBlank c then ' '
    else match digitValue? c with
      | some v => v.digitChar
      | none => '?'

/-- Underscores stand singly and between digits. -/
def underscoresSeparate (run : List Char) : Bool :=
  (run.splitOn '_').all (!·.isEmpty)

/-- An integer written as text: white space around it, one sign, and digits that single
underscores may separate. The length is judged before what follows the digits, whatever that
is. -/
def parse (text : List CodePoint) : Except Fault Int :=
  let body := (text.map plain).dropWhile isPlainBlank
  let (negative, body) := match body with
    | '-' :: rest => (true, rest)
    | '+' :: rest => (false, rest)
    | rest => (false, rest)
  let run := body.takeWhile fun c => c.isDigit || c == '_'
  let digits := run.filter (· != '_')
  if !underscoresSeparate run then .error (.malformed text)
  else match read digits with
    | .error fault => .error fault
    | .ok n =>
      if (body.drop run.length).all isPlainBlank then .ok (signed negative n)
      else .error (.malformed text)

end SchemaLint.Numeral
