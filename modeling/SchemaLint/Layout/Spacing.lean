import SchemaLint.Layout.Token
import SchemaLint.Line.Shape

/-! Spacing inside a line. What a line holds decides which of its white space is normalised; all
else stays as it is. -/

namespace SchemaLint.Layout
open SchemaLint.Text SchemaLint.Line

/-- Drops the white space before each character of a class. -/
def tightenBefore (p : Char → Bool) (s : List Char) : List Char :=
  s.foldr (fun c rest => if isBlank c && rest.head?.any p then rest else c :: rest) []

/-- Drops the white space after each character of a class. -/
def tightenAfter (p : Char → Bool) (s : List Char) : List Char :=
  (tightenBefore p s.reverse).reverse

/-- Drops the white space before the first semicolon that has some. -/
def tightenFirstSemicolon : List Char → List Char
  | [] => []
  | c :: s =>
    if isBlank c && (trimStart s).head? = some ';' then trimStart s
    else c :: tightenFirstSemicolon s

def spaceFinalBrace (s : List Char) : List Char :=
  match s.reverse with
  | '{' :: front => trimEnd front.reverse ++ " \x7b".toList
  | '\n' :: '{' :: front => trimEnd front.reverse ++ " \x7b\n".toList
  | _ => s

/-- One space on either side of the first equals sign. -/
def spaceEquals (s : List Char) : List Char :=
  match until? '=' s with
  | some (front, rest) => trimEnd front ++ " = ".toList ++ trimStart rest
  | none => s

/-- What follows `returns` and an opening parenthesis. -/
def afterReturns? (s : List Char) : Option (List Char) :=
  (after? "returns".toList (trimStart s)).bind fun rest => after? ['('] (trimStart rest)

/-- One space on either side of each `returns` that stands between parentheses. -/
def spaceReturns (s : List Char) : List Char :=
  s.foldr (fun c rest =>
    if c = ')' then
      match afterReturns? rest with
      | some inner => ") returns (".toList ++ inner
      | none => c :: rest
    else c :: rest) []

/-- One space after the leading keyword. -/
def spaceKeyword (keyword : String) (rest : List Char) : List Char :=
  keyword.toList ++ ' ' :: rest

def spaceOpener (keyword : String) (rest : List Char) : List Char :=
  spaceFinalBrace (spaceKeyword keyword rest)

def spaceRpc (rest : List Char) : List Char :=
  let s := spaceKeyword "rpc" rest
  let s := tightenBefore (· == '(') (tightenAfter (· == '(') s)
  let s := spaceReturns (tightenBefore (· == ')') s)
  spaceFinalBrace (tightenBefore (· == ';') s)

def spaceAssignment (s : List Char) : List Char :=
  tightenFirstSemicolon (spaceEquals s)

def asComment? (s : List Char) : Option (Category × List Char) :=
  if startsWith "//".toList s then some (.comment, s) else none

/-- The keywords whose blocks are indented. -/
def blockKeywords : List String := ["message", "enum", "service", "oneof", "extend"]

def asBlock? (s : List Char) : Option (Category × List Char) :=
  blockKeywords.findSome? fun keyword =>
    (afterKeyword? [keyword] s).map fun rest => (.block, spaceOpener keyword rest)

def asSyntax? (s : List Char) : Option (Category × List Char) :=
  ((after? "syntax".toList s).bind afterEquals?).map fun rest =>
    (.syntaxDecl, "syntax = ".toList ++ rest)

/-- The keywords of statements whose spacing is normal but for the space after the keyword. -/
def statementKeywords : List (String × Category) :=
  [("package", .packageDecl), ("import", .importDecl), ("option", .optionDecl),
    ("reserved", .reserved)]

def asStatement? (s : List Char) : Option (Category × List Char) :=
  statementKeywords.findSome? fun (keyword, category) =>
    (afterKeyword? [keyword] s).map fun rest => (category, spaceKeyword keyword rest)

def asRpc? (s : List Char) : Option (Category × List Char) :=
  (afterKeyword? ["rpc"] s).map fun rest => (.rpc, spaceRpc rest)

def asField? (s : List Char) : Option (Category × List Char) :=
  (fieldName? s).map fun _ => (.field, spaceAssignment s)

def asEnumValue? (s : List Char) : Option (Category × List Char) :=
  (assignment? s).map fun _ => (.enumValue, spaceAssignment s)

/-- What a line outside block comments holds, and its text in normal spacing. The first reading
that fits counts. -/
def readLine (s : List Char) : Category × List Char :=
  (asComment? s <|> asBlock? s <|> asSyntax? s <|> asStatement? s <|> asRpc? s <|> asField? s <|>
    asEnumValue? s).getD (.other, s)

end SchemaLint.Layout
