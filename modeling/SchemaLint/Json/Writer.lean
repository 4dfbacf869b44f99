import SchemaLint.Json.Value
import SchemaLint.Text.Quoted

/-! Writing JSON in ASCII on one line. -/

namespace SchemaLint.Json
open SchemaLint.Text

def unitEscape (n : Nat) : List Char :=
  '\\' :: 'u' :: hex 4 n

/-- One code point of a string; beyond the basic plane a pair of escapes. -/
def writePoint (p : CodePoint) : List Char :=
  let n := p.toNat
  if n = 0x22 then ['\\', '"']
  else if n = 0x5c then ['\\', '\\']
  else if 32 ≤ n && n < 127 then [Char.ofNat n]
  else if n < 0x10000 then unitEscape n
  else unitEscape (0xd800 + (n - 0x10000) / 0x400) ++ unitEscape (0xdc00 + (n - 0x10000) % 0x400)

def writeString (s : List CodePoint) : List Char :=
  '"' :: s.flatMap writePoint ++ ['"']

/-- A decimal in exponent notation, which no integer is written in. -/
def writeReal : Real → List Char
  | .finite d =>
    (if d.negative then ['-'] else []) ++ (toString d.coefficient).toList ++
      'e' :: (toString d.exponent).toList
  | .infinite negative => (if negative then "-Infinity" else "Infinity").toList
  | .nan => "NaN".toList

mutual

def write : Json → List Char
  | .null => "null".toList
  | .bool b => (if b then "true" else "false").toList
  | .int n => (toString n).toList
  | .real r => writeReal r
  | .str s => writeString s
  | .list items => '[' :: writeItems items ++ [']']
  | .object fields => '{' :: writeFields fields ++ ['}']

def writeItems : List Json → List Char
  | [] => []
  | [item] => write item
  | item :: items => write item ++ ',' :: writeItems items

def writeFields : List (List CodePoint × Json) → List Char
  | [] => []
  | [(name, content)] => writeString name ++ ':' :: write content
  | (name, content) :: fields =>
    writeString name ++ ':' :: write content ++ ',' :: writeFields fields

end

end SchemaLint.Json
