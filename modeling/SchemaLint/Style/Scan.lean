import SchemaLint.Line.Comment
import SchemaLint.Line.Naming
import SchemaLint.Line.Shape
import SchemaLint.Numeral
import SchemaLint.Pass
import SchemaLint.Style.Finding

/-! The style pass. It keeps the header statements seen, the depth of braces, the service and the
enum that are open, and whether the line before is a comment. It is independent of the structural
scan, so a malformed source still gets the findings of its recognisable parts. -/

namespace SchemaLint.Style
open SchemaLint.Text SchemaLint.Line

structure EnumValue where
  name : List Char
  number : Int
  line : Nat
  deriving DecidableEq

/-- The enum whose values are being collected. -/
structure OpenEnum where
  name : List Char
  line : Nat
  /-- The depth at its declaration; the enum ends when the depth is back there. -/
  depth : Int
  values : List EnumValue := []
  deriving DecidableEq

structure Import where
  line : Nat
  text : List Char
  isPublic : Bool
  deriving DecidableEq

structure State where
  /-- The last line that declares a syntax. -/
  syntaxLine : Option Nat := none
  /-- The last line that declares a package. -/
  packageLine : Option Nat := none
  imports : List Import := []
  afterComment : Bool := false
  /-- Opening braces less closing ones; negative when too many close. -/
  depth : Int := 0
  /-- The depth at the declaration of the open service. -/
  serviceDepth : Option Int := none
  openEnum : Option OpenEnum := none
  inComment : Bool := false
  /-- The length of the first number of an enum value that is too long to be read. -/
  overlong : Option Nat := none
  deriving DecidableEq

def lengthFindings (line : Nat) (raw : List Char) : List Finding :=
  if maxLineLength < raw.length then
    [{ line, column := maxLineLength + 1, cause := .longLine raw.length }] else []

def nameFindings (good : List Char → Bool) (cause : List Char → Cause) (line : Nat)
    (name : List Char) : List Finding :=
  if good name then [] else [{ line, cause := cause name }]

def messageFindings (line : Nat) (trimmed : List Char) : List Finding :=
  ((declaredName? "message" trimmed).map (nameFindings isPascalCase .messageName line)).getD []

namespace State

/-- Header statements are noted wherever they stand. -/
def noteHeader (s : State) (line : Nat) (trimmed : List Char) : State :=
  { s with
    syntaxLine := if startsWith "syntax".toList trimmed then some line else s.syntaxLine
    packageLine := if startsWith "package ".toList trimmed then some line else s.packageLine
    imports :=
      if startsWith "import ".toList trimmed then
        s.imports ++ [⟨line, trimmed, startsWith "import public ".toList trimmed⟩]
      else s.imports }

/-- A value of the open enum. -/
def collect (line : Nat) (s : State) (text : List Char) : State × List Finding :=
  match s.openEnum, assignment? text with
  | some e, some (a, _) =>
    let number := Numeral.signed a.negative (Numeral.value a.digits)
    let tooLong := if Numeral.maxDigits < a.digits.length then some a.digits.length else none
    ({ s with
        openEnum := some { e with values := e.values ++ [⟨a.name, number, line⟩] }
        overlong := s.overlong.or tooLong },
      nameFindings isUpperSnakeCase .valueName line a.name)
  | _, _ => (s, [])

/-- A declared enum is the open one from here on; values may follow on its own line. -/
def openEnumAt (s : State) (line : Nat) (trimmed name : List Char) : State × List Finding :=
  let s := { s with openEnum := some { name, line, depth := s.depth } }
  let statements := match until? '{' (code trimmed) with
    | some (_, body) => (body.splitOn ';').map trim
    | none => []
  let (s, findings) := Pass.run (collect line) s statements
  (s, nameFindings isPascalCase .enumName line name ++ findings)

/-- The enum that a line declares, or the value that it adds. -/
def readEnum (s : State) (line : Nat) (trimmed : List Char) : State × List Finding :=
  match declaredName? "enum" trimmed with
  | some name => s.openEnumAt line trimmed name
  | none => s.collect line trimmed

/-- A numbered name is a field only while no enum is open. -/
def fieldFindings (s : State) (line : Nat) (trimmed : List Char) : List Finding :=
  match s.openEnum, fieldName? trimmed with
  | none, some name => nameFindings isSnakeCase .fieldName line name
  | _, _ => []

/-- Services and their methods want a comment on the line before. -/
def readService (s : State) (line : Nat) (trimmed : List Char) : State × List Finding :=
  let wanting (cause : Cause) : List Finding := if s.afterComment then [] else [{ line, cause }]
  if startsWith "service ".toList trimmed then
    ({ s with serviceDepth := s.serviceDepth.or (some s.depth) }, wanting .serviceUncommented)
  else if s.serviceDepth.isSome && startsWith "rpc ".toList trimmed then
    (s, wanting .rpcUncommented)
  else (s, [])

end State

/-- The first value of an enum is to be zero and unspecified. -/
def firstValueFindings (e : OpenEnum) : List Finding :=
  match e.values with
  | [] => []
  | v :: _ =>
    if v.number = 0 && "UNSPECIFIED".toList.isSuffixOf v.name then []
    else [{ line := e.line, cause := .firstValue e.name }]

/-- One character of code: braces move the depth, and a closing brace that brings it back ends
the service and the enum. -/
def State.brace (s : State) (c : Char) : State × List Finding :=
  if c = '{' then ({ s with depth := s.depth + 1 }, [])
  else if c = '}' then
    let depth := s.depth - 1
    let s := { s with depth, serviceDepth := s.serviceDepth.filter (· < depth) }
    match s.openEnum with
    | some e => if depth ≤ e.depth then ({ s with openEnum := none }, firstValueFindings e)
      else (s, [])
    | none => (s, [])
  else (s, [])

/-- The braces of a line, unless it is a comment. -/
def State.readBraces (s : State) (trimmed : List Char) : State × List Finding :=
  if isComment trimmed then (s, []) else Pass.run State.brace s (code trimmed)

def step (s : State) (item : List Char × Nat) : State × List Finding :=
  let (raw, line) := item
  let trimmed := trim raw
  let length := lengthFindings line raw
  let inComment := blockAfter s.inComment trimmed
  if s.inComment then ({ s with inComment, afterComment := true }, length)
  else
    let s := { s with inComment }.noteHeader line trimmed
    let message := messageFindings line trimmed
    let (s, enum) := s.readEnum line trimmed
    let field := s.fieldFindings line trimmed
    let (s, service) := s.readService line trimmed
    let (s, first) := s.readBraces trimmed
    ({ s with afterComment := isComment trimmed },
      length ++ message ++ enum ++ field ++ service ++ first)

def newlineFindings (content : List Char) (lineCount : Nat) : List Finding :=
  if content ≠ [] && content.getLast? ≠ some '\n' then
    [{ line := lineCount, cause := .noFinalNewline }] else []

/-- A source is to declare its syntax and then its package. -/
def State.headerFindings (s : State) : List Finding :=
  (if s.syntaxLine.isNone then [{ line := 1, cause := .noSyntax }] else []) ++
    (if s.packageLine.isNone then [{ line := 1, cause := .noPackage }] else []) ++
    match s.syntaxLine, s.packageLine with
    | some syntaxLine, some packageLine =>
      if packageLine < syntaxLine then [{ line := packageLine, cause := .packageBeforeSyntax }]
      else []
    | _, _ => []

def State.importFindings (s : State) : List Finding :=
  (Pass.run (fun seenOther (i : Import) =>
    (seenOther || !i.isPublic,
      if i.isPublic && seenOther then [{ line := i.line, cause := .lateImport }] else []))
    false s.imports).2

def scan (s : State) (lines : List (List Char × Nat)) : State × List Finding :=
  Pass.run step s lines

/-- All findings of a source that is also given as lines. An enum value whose number is too long
to be read leaves none. -/
def check (content : List Char) (lines : List (List Char)) :
    Except Numeral.Fault (List Finding) :=
  let (s, findings) := scan {} (lines.zipIdx 1)
  match s.overlong with
  | some digits => .error (.overlong digits)
  | none =>
    .ok (newlineFindings content lines.length ++ findings ++ s.headerFindings ++ s.importFindings)

/-- The state after each line, and the findings of that line. -/
def progress (lines : List (List Char)) : Except Numeral.Fault (List (State × List Finding)) :=
  let trace := Pass.trace step {} (lines.zipIdx 1)
  match trace.getLast?.bind (·.1.overlong) with
  | some digits => .error (.overlong digits)
  | none => .ok trace

end SchemaLint.Style
