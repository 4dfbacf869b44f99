import SchemaLint.Text.Scan

/-! Shapes of statements. Each is a test on the code of a single line; together they stand in for
a grammar, and no tree is built. -/

namespace SchemaLint.Line
open SchemaLint.Text

/-- Kinds of blocks: the four that a keyword opens, and the one of a brace alone. -/
inductive BlockKind
  | message | enum | service | oneof | plain
  deriving DecidableEq, Repr

/-- The keyword, or the word for a block without one. -/
def BlockKind.word : BlockKind → String
  | .message => "message"
  | .enum => "enum"
  | .service => "service"
  | .oneof => "oneof"
  | .plain => "block"

def BlockKind.declared : List BlockKind := [.message, .enum, .service, .oneof]

/-- What follows one of the keywords and the white space after it. -/
def afterKeyword? (keywords : List String) (s : List Char) : Option (List Char) :=
  keywords.findSome? fun k => (after? k.toList s).bind afterBlanks?

/-- The line is a closing brace alone, perhaps with a semicolon. -/
def isCloser (s : List Char) : Bool :=
  s = ['}'] || s = ['}', ';']

/-- What follows a field's type: a map type, or words joined by single dots. -/
def afterType? (s : List Char) : Option (List Char) :=
  match after? "map<".toList s with
  | some rest => (until? '>' rest).bind fun (inner, rest) => if inner = [] then none else some rest
  | none =>
    let isPart := fun c => isWord c || c == '.'
    if ((s.takeWhile isPart).splitOn '.').all (!·.isEmpty) then some (s.dropWhile isPart) else none

/-- The name that follows a type and white space, and what follows the name. -/
def typedName? (s : List Char) : Option (List Char × List Char) :=
  ((afterType? s).bind afterBlanks?).bind word?

def afterLabel? : List Char → Option (List Char) :=
  afterKeyword? ["optional", "repeated", "required"]

/-- What follows an equals sign and the white space around it. -/
def afterEquals? (s : List Char) : Option (List Char) :=
  match trimStart s with
  | '=' :: rest => some (trimStart rest)
  | _ => none

/-- The name of a typed name that a number is assigned to. -/
def numberedName? (s : List Char) : Option (List Char) :=
  (typedName? s).bind fun (name, rest) => ((afterEquals? rest).bind digits?).map fun _ => name

/-- A type and a name, after a label or without one. A label that is followed by less counts as
the type. -/
def isFieldShaped (s : List Char) : Bool :=
  ((afterLabel? s).bind typedName?).isSome || (typedName? s).isSome

/-- The name of a field that a number is assigned to. -/
def fieldName? (s : List Char) : Option (List Char) :=
  ((afterLabel? s).bind numberedName?).or (numberedName? s)

/-- The line starts with the keyword of a definition or statement that may stand among fields. -/
def isNestedDefinition (s : List Char) : Bool :=
  ["message", "enum", "oneof", "extend", "reserved", "option", "extensions"].any
    fun k => k.toList = s.takeWhile isWord

/-- The line is to be read as a field. -/
def isField (s : List Char) : Bool :=
  !isCloser s && !isNestedDefinition s && isFieldShaped s

/-- What follows an equals sign at the start, a number and the white space around it. -/
def afterNumber? : List Char → Option (List Char)
  | '=' :: s => (digits? (trimStart s)).map fun (_, rest) => trimStart rest
  | _ => none

/-- The text goes on with a semicolon or with bracketed options. -/
def endsStatement (s : List Char) : Bool :=
  s.head?.any fun c => c == ';' || c == '['

/-- A number is assigned and the statement goes on as it should. -/
def hasTerminatedNumber : List Char → Bool :=
  someEnd fun s => (afterNumber? s).any endsStatement

def hasUnterminatedNumber : List Char → Bool :=
  someEnd fun s => afterNumber? s = some []

/-- A name and the number assigned to it, as written. -/
structure Assignment where
  name : List Char
  negative : Bool
  digits : List Char
  deriving DecidableEq

def assignment? (s : List Char) : Option (Assignment × List Char) :=
  (word? s).bind fun (name, rest) => (afterEquals? rest).bind fun rest =>
    match rest with
    | '-' :: rest => (digits? rest).map fun (digits, rest) => (⟨name, true, digits⟩, rest)
    | rest => (digits? rest).map fun (digits, rest) => (⟨name, false, digits⟩, rest)

/-- The line is to be read as an enum value. -/
def isEnumValue (s : List Char) : Bool :=
  !isCloser s && !startsWith "option ".toList s && !startsWith "reserved ".toList s &&
    s.head?.any isWord

/-- An enum value whose statement goes on as it should. -/
def isTerminatedValue (s : List Char) : Bool :=
  (assignment? s).any fun (_, rest) => endsStatement (trimStart rest)

def isUnterminatedValue (s : List Char) : Bool :=
  (assignment? s).any fun (_, rest) => trimStart rest = []

/-- The opening of a block: its kind, its name, which may be missing, and what follows them. -/
structure Opener where
  kind : BlockKind
  name : List Char
  rest : List Char
  deriving DecidableEq

/-- A leading block keyword, followed by white space, a brace or nothing. -/
def opener? (s : List Char) : Option Opener :=
  BlockKind.declared.findSome? fun kind => (after? kind.word.toList s).bind fun rest =>
    match rest with
    | [] => some ⟨kind, [], []⟩
    | '{' :: _ => some ⟨kind, [], rest⟩
    | _ => (afterBlanks? rest).map fun rest =>
      ⟨kind, rest.takeWhile isWord, rest.dropWhile isWord⟩

def declaredName? (keyword : String) (s : List Char) : Option (List Char) :=
  ((afterKeyword? [keyword] s).bind word?).map Prod.fst

/-- What follows a parenthesised part at the start. -/
def afterParens? : List Char → Option (List Char)
  | '(' :: s => (until? ')' s).map Prod.snd
  | _ => none

/-- A method with its request and response, ended by a semicolon or opening a body. -/
def isRpc (s : List Char) : Bool :=
  let request := ((afterKeyword? ["rpc"] s).bind word?).bind fun (_, rest) =>
    afterParens? (trimStart rest)
  let response := ((request.bind afterBlanks?).bind (afterKeyword? ["returns"])).bind afterParens?
  response.any fun rest => (trimStart rest).head?.any fun c => c == ';' || c == '{'

/-- The quoted value of a complete syntax declaration. -/
def syntaxValue? (s : List Char) : Option (List Char) :=
  match (after? "syntax".toList s).bind afterEquals? with
  | some ('"' :: rest) => (until? '"' rest).bind fun (value, rest) =>
    if startsWith ";".toList (trimStart rest) then some value else none
  | _ => none

/-- The values that a syntax declaration may have. -/
def isKnownSyntax (value : List Char) : Bool :=
  value = "proto2".toList || value = "proto3".toList

/-- A statement that needs a semicolon, has none and opens no brace. -/
def lacksSemicolon (s : List Char) : Bool :=
  (afterKeyword? ["syntax", "package", "import", "option"] s).isSome &&
    !s.contains ';' && !s.contains '{'

/-- The line may stand outside every block. -/
def isTopLevel (s : List Char) : Bool :=
  s = ['{'] || isCloser s ||
    (afterKeyword? ["syntax", "package", "import", "option", "message", "enum", "service",
      "extend"] s).isSome ||
    (["message", "enum", "service", "extend"].any fun k =>
      (after? k.toList s).any fun rest => rest = [] || rest.head? = some '{') ||
    startsWith "//".toList s || startsWith "/*".toList s

end SchemaLint.Line
