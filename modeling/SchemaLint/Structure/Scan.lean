import SchemaLint.Line.Comment
import SchemaLint.Pass
import SchemaLint.Structure.Fault

/-! The structural scan. It keeps the open blocks and an opener that waits for its brace; every
check looks at the code of one line and at the innermost open block. -/

namespace SchemaLint.Structure
open SchemaLint.Text SchemaLint.Line

structure State where
  /-- The open blocks, the innermost first. -/
  stack : List Block := []
  /-- An opener without a brace; the next line of code has to supply it. -/
  pending : Option Block := none
  inComment : Bool := false
  deriving DecidableEq

namespace State

def context (s : State) : Option BlockKind :=
  s.stack.head?.map Block.kind

/-- No block is open and no opener waits. -/
def atTopLevel (s : State) : Bool :=
  s.stack.isEmpty && s.pending.isNone

end State

def fieldCauses (code : List Char) : List Cause :=
  if !isField code || hasTerminatedNumber code then []
  else if hasUnterminatedNumber code then [.fieldLacksSemicolon]
  else [.fieldLacksNumber]

def valueCauses (code : List Char) : List Cause :=
  if !isEnumValue code || isTerminatedValue code then []
  else if isUnterminatedValue code then [.valueLacksSemicolon]
  else [.valueLacksNumber]

/-- The check of a member, by the block it stands in. -/
def memberCauses (context : Option BlockKind) (code : List Char) : List Cause :=
  match context with
  | some .message | some .oneof => fieldCauses code
  | some .enum => valueCauses code
  | _ => []

def rpcCauses (context : Option BlockKind) (code : List Char) : List Cause :=
  if context = some .service && startsWith "rpc ".toList code && !isRpc code
  then [.malformedRpc] else []

def syntaxCauses (code : List Char) : List Cause :=
  match syntaxValue? code with
  | some value => if isKnownSyntax value then [] else [.unknownSyntax value]
  | none => []

def afterLastSemicolon (code : List Char) : List Char :=
  (code.reverse.takeWhile (· != ';')).reverse

/-- Content after a semicolon, unless the line opens a brace or the content is a comment. The
column is that of the character after the semicolon. -/
def trailingFaults (line indent : Nat) (code : List Char) : List Fault :=
  let rest := afterLastSemicolon code
  let content := trim rest
  if !code.contains ';' || code.contains '{' || content = [] ||
      startsWith "//".toList content || startsWith "/*".toList content then []
  else
    [{ line, column := indent + (code.length - rest.length) + 1
       cause := .trailingContent content }]

def topLevelCauses (atTopLevel : Bool) (code : List Char) : List Cause :=
  if atTopLevel && !isTopLevel code then [.unrecognized code] else []

/-- A missing semicolon is reported at the last character of the code. -/
def semicolonFaults (line indent : Nat) (code : List Char) : List Fault :=
  if Line.lacksSemicolon code then
    [{ line, column := indent + code.length, cause := .lacksSemicolon }] else []

/-- The blocks while the braces of a line are being given to them: `claimed` says that one opening
brace of the line has its block. -/
structure Blocks where
  stack : List Block
  pending : Option Block := none
  claimed : Bool := false
  faults : List Fault := []

/-- A waiting opener takes a brace at the start of the code, or goes without one. -/
def settle (s : State) (code : List Char) : Blocks :=
  match s.pending with
  | none => { stack := s.stack }
  | some block =>
    if code.head? = some '{' then { stack := block :: s.stack, claimed := true }
    else { stack := s.stack, faults := [block.lacksBrace] }

/-- An opener opens its block if the line has a brace, waits if nothing follows its name, and
goes without a brace otherwise. -/
def declare (line : Nat) (code : List Char) (b : Blocks) : Blocks :=
  match opener? code with
  | none => b
  | some o =>
    let block : Block := ⟨o.kind, o.name, line⟩
    let nameless : List Fault :=
      if o.name = [] then [{ line, cause := .missingName o.kind }] else []
    if code.contains '{' then
      { b with stack := block :: b.stack, claimed := true, faults := b.faults ++ nameless }
    else if trim o.rest = [] then
      { b with pending := some block, faults := b.faults ++ nameless }
    else
      { b with faults := b.faults ++ nameless ++ [block.lacksBrace] }

/-- Opening braces that no block claimed open plain blocks; then each closing brace closes the
innermost block. -/
def balance (line : Nat) (code : List Char) (b : Blocks) : Blocks :=
  let opened := code.count '{' - if b.claimed then 1 else 0
  let stack := List.replicate opened ⟨.plain, [], line⟩ ++ b.stack
  let closed := code.count '}'
  { b with
    stack := stack.drop closed
    faults := b.faults ++
      List.replicate (closed - stack.length) { line, cause := .unexpectedClose } }

def blocks (s : State) (line : Nat) (code : List Char) : Blocks :=
  balance line code (declare line code (settle s code))

def scanCode (s : State) (line indent : Nat) (code : List Char) : State × List Fault :=
  let here (cause : Cause) : Fault := { line, cause }
  let b := blocks s line code
  ({ s with stack := b.stack, pending := b.pending },
    (memberCauses s.context code).map here ++ b.faults ++
      (rpcCauses s.context code ++ syntaxCauses code).map here ++
      trailingFaults line indent code ++
      (topLevelCauses s.atTopLevel code).map here ++
      semicolonFaults line indent code)

/-- One line. A comment takes the place of the line that would have supplied a brace. -/
def step (s : State) (item : List Char × Nat) : State × List Fault :=
  let (raw, line) := item
  let trimmed := trim raw
  let inComment := blockAfter s.inComment trimmed
  if s.inComment then ({ s with inComment }, [])
  else if trimmed = [] then (s, [])
  else if isComment trimmed then
    ({ s with inComment, pending := none }, s.pending.toList.map Block.lacksBrace)
  else scanCode s line (raw.takeWhile isBlank).length (code trimmed)

/-- The faults of a source that ends here: an opener still waits, blocks are still open. -/
def State.closing (s : State) : List Fault :=
  s.pending.toList.map Block.lacksBrace ++ s.stack.reverse.map Block.staysOpen

def scan (s : State) (lines : List (List Char × Nat)) : State × List Fault :=
  Pass.run step s lines

def check (lines : List (List Char)) : List Fault :=
  let (s, faults) := scan {} (lines.zipIdx 1)
  faults ++ s.closing

/-- The structural faults of each nonempty initial part of a source. -/
def progress (lines : List (List Char)) : List (List Fault) :=
  (Pass.run (fun sofar (s, faults) => (sofar ++ faults, [sofar ++ faults ++ State.closing s])) []
    (Pass.trace step {} (lines.zipIdx 1))).2

end SchemaLint.Structure
