import SchemaLint.Proofs.Schema.Print
import SchemaLint.Structure.Fault

/-! Well-formed sources as trees. A tree holds its lines as they are written: one statement a line
with single spaces, the opening brace of a block at the end of its first line and the closing one
on a line of its own, all at any indentation, and line comments and blank lines anywhere between
them. What may stand where is part of the type. -/

namespace SchemaLint.Schema
open SchemaLint.Line

def led (keyword : String) (rest : List Char) : List Char :=
  keyword.toList ++ ' ' :: rest

def assigned (front number : List Char) : List Char :=
  front ++ ' ' :: '=' :: ' ' :: number

theorem led_append (keyword : String) (rest t : List Char) :
    led keyword (rest ++ t) = led keyword rest ++ t := by
  rw [led, led, List.append_assoc, List.cons_append]

theorem assigned_append (front number t : List Char) :
    assigned front (number ++ t) = assigned front number ++ t := by
  simp [assigned]

def Keyword.kind : Keyword → BlockKind
  | message => .message
  | enum => .enum
  | service => .service
  | oneof => .oneof

def Signature.text (s : Signature) : List Char :=
  led "rpc" (s.name.text ++ '(' :: (s.request.text ++
    (") returns (".toList ++ (s.response.text ++ [')']))))

def Opener.front : Opener → List Char
  | block keyword name => led keyword.word name.text
  | method s => s.text

def Opener.text (o : Opener) : List Char :=
  o.front ++ " \x7b".toList

end SchemaLint.Schema

namespace SchemaLint.Document
open SchemaLint.Text
open SchemaLint.Line (BlockKind)
open SchemaLint.Structure (Block)
open SchemaLint.Schema (Header Field Value Signature Opener isTerm led assigned)

/-- Where a line stands: outside every block, or in one. -/
inductive Place
  | top | message | oneof | enum | service | method

/-- The kind of the innermost block. The body of a method is a plain block. -/
def Place.kind? : Place → Option BlockKind
  | top => none
  | message => some .message
  | oneof => some .oneof
  | enum => some .enum
  | service => some .service
  | method => some .plain

/-- What a reserved line lists: numbers, ranges and quoted names. -/
structure Reservation where
  text : List Char
  plain : ∀ c ∈ text, isTerm c || c == '"'

/-- A statement on a line of its own. -/
inductive Leaf
  | header (header : Header)
  | field (field : Field)
  | reserved (reservation : Reservation)
  | value (value : Value)
  | method (signature : Signature)
  | deprecated

/-- The keyword that a header statement starts with. -/
def headerKeyword : Header → String
  | .syntaxDecl _ => "syntax"
  | .packageDecl _ => "package"
  | .importDecl _ => "import"
  | .publicImport _ => "import"
  | .optionDecl _ _ => "option"

/-- What follows the keyword of a header statement, up to its semicolon. -/
def headerRest : Header → List Char
  | .syntaxDecl q => '=' :: ' ' :: q.quoted
  | .packageDecl p => p.text
  | .importDecl q => q.quoted
  | .publicImport q => led "public" q.quoted
  | .optionDecl n q => assigned n.text q.quoted

def Leaf.stem : Leaf → List Char
  | header h => led (headerKeyword h) (headerRest h)
  | field f => assigned f.front f.number.digits
  | reserved r => led "reserved" r.text
  | value v => assigned v.name.text v.numeral
  | method s => s.text
  | deprecated => led "option" "deprecated = true".toList

def Leaf.text (l : Leaf) : List Char :=
  l.stem ++ [';']

/-- The statements of a place. -/
inductive Holds : Place → Leaf → Prop
  | header (h : Header) : Holds .top (.header h)
  | field (f : Field) : Holds .message (.field f)
  | reserved (r : Reservation) : Holds .message (.reserved r)
  | choice (f : Field) : Holds .oneof (.field f)
  | value (v : Value) : Holds .enum (.value v)
  | unused (r : Reservation) : Holds .enum (.reserved r)
  | method (s : Signature) : Holds .service (.method s)
  | deprecated : Holds .method .deprecated

/-- The blocks that may be opened in a place, and the places inside them. -/
inductive Opens : Place → Opener → Place → Prop
  | message (name : Schema.Name) : Opens .top (.block .message name) .message
  | enum (name : Schema.Name) : Opens .top (.block .enum name) .enum
  | service (name : Schema.Name) : Opens .top (.block .service name) .service
  | innerMessage (name : Schema.Name) : Opens .message (.block .message name) .message
  | innerEnum (name : Schema.Name) : Opens .message (.block .enum name) .enum
  | oneof (name : Schema.Name) : Opens .message (.block .oneof name) .oneof
  | method (s : Signature) : Opens .service (.method s) .method

/-- A line that holds the text, at some indentation. -/
structure Written (text : List Char) where
  raw : List Char
  trimmed : trim raw = text

/-- A blank line or a line comment. -/
structure Filler where
  raw : List Char
  trimmed : trim raw = [] ∨ startsWith "//".toList (trim raw)

def Filler.isNote (f : Filler) : Bool :=
  startsWith "//".toList (trim f.raw)

/-- What a place holds, line by line, each line or block after what stands before it. -/
inductive Body : Place → Type
  | done {place : Place} (gap : List Filler) : Body place
  | leaf {place : Place} (gap : List Filler) (l : Leaf) (holds : Holds place l)
      (line : Written l.text) (rest : Body place) : Body place
  | block {place inner : Place} (gap : List Filler) (o : Opener) (opens : Opens place o inner)
      (first : Written o.text) (body : Body inner) (last : Written ['}']) (rest : Body place) :
      Body place

/-- What a line is. -/
inductive Item
  | filler
  | leaf (l : Leaf)
  | opener (o : Opener)
  | close

/-- A line with the blocks that it stands in, the innermost first. A closing brace stands in the
block that it closes. -/
structure Row where
  outer : List Block
  item : Item
  raw : List Char

def opened (line : Nat) : Opener → Block
  | .block keyword name => ⟨keyword.kind, name.text, line⟩
  | .method _ => ⟨.plain, [], line⟩

/-- The blocks that are open after a line, by those before it. -/
def Item.after (line : Nat) (stack : List Block) : Item → List Block
  | filler => stack
  | leaf _ => stack
  | opener o => opened line o :: stack
  | close => stack.tail

def gapRows (outer : List Block) (gap : List Filler) : List Row :=
  gap.map fun f => ⟨outer, .filler, f.raw⟩

def Body.height {place : Place} : Body place → Nat
  | done gap => gap.length
  | leaf gap _ _ _ rest => gap.length + (rest.height + 1)
  | block gap _ _ _ body _ rest => gap.length + (body.height + (rest.height + 1) + 1)

/-- The lines from line `n` on, inside the blocks. -/
def Body.rows {place : Place} (outer : List Block) (n : Nat) : Body place → List Row
  | done gap => gapRows outer gap
  | leaf gap l _ line rest =>
    gapRows outer gap ++ ⟨outer, .leaf l, line.raw⟩ :: rest.rows outer (n + gap.length + 1)
  | block gap o _ first body last rest =>
    let inner := opened (n + gap.length) o :: outer
    gapRows outer gap ++ ⟨outer, .opener o, first.raw⟩ ::
      (body.rows inner (n + gap.length + 1) ++
        ⟨inner, .close, last.raw⟩ :: rest.rows outer (n + gap.length + 1 + body.height + 1))

end SchemaLint.Document

namespace SchemaLint

abbrev Document : Type := Document.Body .top

namespace Document
open SchemaLint.Schema (Field Value)

def rows (d : Document) : List Row :=
  Body.rows [] 1 d

def lines (d : Document) : List (List Char) :=
  d.rows.map Row.raw

def sampleField : Field where
  label := none
  type := .path ⟨⟨"string".toList, by decide, by decide⟩, []⟩
  name := ⟨"name".toList, by decide, by decide⟩
  number := Schema.sampleField.number

def sampleValue : Value where
  name := ⟨"ROLE_UNSPECIFIED".toList, by decide, by decide⟩
  negative := false
  number := ⟨"0".toList, by decide, by decide⟩

def sampleRole : Body .enum :=
  .leaf [] (.value sampleValue) (.value _) ⟨"    ROLE_UNSPECIFIED = 0;".toList, by decide⟩
    (.done [])

def sampleUser : Body .message :=
  .leaf [] (.field sampleField) (.field _) ⟨"  string name = 1;".toList, by decide⟩
    (.block [] (.block .enum ⟨"Role".toList, by decide, by decide⟩) (.innerEnum _)
      ⟨"  enum Role \x7b".toList, by decide⟩ sampleRole ⟨"  \x7d".toList, by decide⟩ (.done []))

def closing : Written ['}'] :=
  ⟨"\x7d".toList, by decide⟩

def sample : Document :=
  .leaf [] (.header (.syntaxDecl Schema.sampleVersion)) (.header _)
    ⟨"syntax = \"proto3\";".toList, by decide⟩
    (.block [⟨"// A user.".toList, by decide⟩]
      (.block .message Schema.sampleName) (.message _)
      ⟨"message User \x7b".toList, by decide⟩ sampleUser closing (.done []))

example : sample.lines.map String.ofList = ["syntax = \"proto3\";", "// A user.",
    "message User \x7b", "  string name = 1;", "  enum Role \x7b", "    ROLE_UNSPECIFIED = 0;",
    "  \x7d", "\x7d"] := by
  decide

end Document

end SchemaLint
