import SchemaLint.Proofs.Schema.Tree

/-! A schema line by line. Each line is made of texts with white space between them; the canonical
print fixes the white space, and a layout of the schema varies it. -/

namespace SchemaLint.Schema
open SchemaLint.Text SchemaLint.Layout

/-- A text, or white space: some that is needed and in print is one space, some that may be missing
and in print is one space, and some that in print is missing. -/
inductive Chunk
  | text (s : List Char)
  | space
  | loose
  | tight

def Chunk.print : Chunk → List Char
  | text s => s
  | space => [' ']
  | loose => [' ']
  | tight => []

def Chunk.Fits : Chunk → List Char → Prop
  | text s, t => t = s
  | space, t => t ≠ [] ∧ Blank t
  | loose, t => Blank t
  | tight, t => Blank t

instance (chunk : Chunk) (t : List Char) : Decidable (chunk.Fits t) :=
  match chunk with
  | .text s => inferInstanceAs (Decidable (t = s))
  | .space => inferInstanceAs (Decidable (t ≠ [] ∧ Blank t))
  | .loose => inferInstanceAs (Decidable (Blank t))
  | .tight => inferInstanceAs (Decidable (Blank t))

def Chunk.printAll (chunks : List Chunk) : List Char :=
  chunks.flatMap print

def Chunk.FitAll : List Chunk → List Char → Prop
  | [], t => t = []
  | chunk :: chunks, t => ∃ u v, chunk.Fits u ∧ FitAll chunks v ∧ t = u ++ v

def Label.text : Label → List Char
  | optional => "optional".toList
  | repeated => "repeated".toList
  | required => "required".toList

def FieldType.text : FieldType → List Char
  | path p => p.text
  | map key value => "map<".toList ++ (key.text ++ (", ".toList ++ (value.text ++ ['>'])))

/-- The label, the type and the name of a field. -/
def Field.front (f : Field) : List Char :=
  f.label.elim [] (·.text ++ [' ']) ++ (f.type.text ++ ' ' :: f.name.text)

def Value.numeral (v : Value) : List Char :=
  if v.negative then '-' :: v.number.digits else v.number.digits

def Range.text : Range → List Char
  | one n => n.digits
  | span low high => low.digits ++ (" to ".toList ++ high.digits)

def Reserved.text (r : Reserved) : List Char :=
  r.first.text ++ r.more.flatMap fun range => ", ".toList ++ range.text

def Operand.text (o : Operand) : List Char :=
  if o.stream then "stream ".toList ++ o.type.text else o.type.text

/-- A keyword that opens a block. -/
inductive Keyword
  | message | enum | service | oneof

def Keyword.word : Keyword → String
  | message => "message"
  | enum => "enum"
  | service => "service"
  | oneof => "oneof"

/-- A statement that a closing brace may follow on its line. -/
inductive Statement
  | field (field : Field)
  | value (value : Value)
  | reserved (reserved : Reserved)
  | method (signature : Signature)
  | deprecated

inductive Opener
  | block (keyword : Keyword) (name : Name)
  | method (signature : Signature)

/-- A line of a schema. -/
inductive Piece
  | note (note : Note)
  | header (header : Header)
  | statement (statement : Statement)
  | opener (opener : Opener)
  | close

def Header.chunks : Header → List Chunk
  | syntaxDecl q => [.text "syntax".toList, .loose, .text ['='], .loose, .text (q.quoted ++ [';'])]
  | packageDecl p => [.text "package".toList, .space, .text (p.text ++ [';'])]
  | importDecl q => [.text "import".toList, .space, .text (q.quoted ++ [';'])]
  | publicImport q =>
    [.text "import".toList, .space, .text ("public ".toList ++ (q.quoted ++ [';']))]
  | optionDecl n q =>
    [.text "option".toList, .space, .text (n.text ++ (" = ".toList ++ (q.quoted ++ [';'])))]

def assignment (front number : List Char) : List Chunk :=
  [.text front, .loose, .text ['='], .loose, .text number, .tight, .text [';']]

def Operand.chunks (o : Operand) : List Chunk :=
  [.text ['('], .tight, .text o.text, .tight, .text [')']]

def Signature.chunks (s : Signature) : List Chunk :=
  [.text "rpc".toList, .space, .text s.name.text, .tight] ++
    (s.request.chunks ++ ([.loose, .text "returns".toList, .loose] ++ s.response.chunks))

def Statement.chunks : Statement → List Chunk
  | field f => assignment f.front f.number.digits
  | value v => assignment v.name.text v.numeral
  | reserved r => [.text "reserved".toList, .space, .text (r.text ++ [';'])]
  | method s => s.chunks ++ [.tight, .text [';']]
  | deprecated => [.text "option".toList, .space, .text "deprecated = true;".toList]

def Keyword.chunks (keyword : Keyword) (name : Name) : List Chunk :=
  [.text keyword.word.toList, .space, .text name.text]

def Opener.chunks : Opener → List Chunk
  | block keyword name => keyword.chunks name ++ [.loose, .text ['{']]
  | method s => s.chunks ++ [.loose, .text ['{']]

def Piece.chunks : Piece → List Chunk
  | note n => [.text n.text]
  | header h => h.chunks
  | statement s => s.chunks
  | opener o => o.chunks
  | close => [.text ['}']]

/-- The line as the canonical print has it, but for its indentation. -/
def Piece.text (p : Piece) : List Char :=
  Chunk.printAll p.chunks

/-- A line and how deep it stands. -/
structure Placed where
  depth : Nat
  piece : Piece

def Placed.line (p : Placed) : List Char :=
  List.replicate (2 * p.depth) ' ' ++ p.piece.text

def placedNotes (depth : Nat) (notes : List Note) : List Placed :=
  notes.map fun n => ⟨depth, .note n⟩

/-- An opener, what it holds and its closing brace. -/
def enclosed (depth : Nat) (opener : Opener) (body : List Placed) : List Placed :=
  ⟨depth, .opener opener⟩ :: (body ++ [⟨depth, .close⟩])

def statements {α : Type} (depth : Nat) (f : α → Statement) (items : List (Noted α)) :
    List Placed :=
  items.flatMap fun i => placedNotes depth i.notes ++ [⟨depth, .statement (f i.item)⟩]

def Method.placed (depth : Nat) (m : Method) : List Placed :=
  match m.body with
  | none => [⟨depth, .statement (.method m.signature)⟩]
  | some notes => enclosed depth (.method m.signature)
    (placedNotes (depth + 1) notes ++ [⟨depth + 1, .statement .deprecated⟩])

def Item.placed (depth : Nat) : Item → List Placed
  | field f => [⟨depth, .statement (.field f)⟩]
  | reserved r => [⟨depth, .statement (.reserved r)⟩]
  | oneof name fields => enclosed depth (.block .oneof name) (statements (depth + 1) .field fields)
  | enum name values => enclosed depth (.block .enum name) (statements (depth + 1) .value values)

def Members.placed (depth : Nat) : Members → List Placed
  | nil => []
  | item notes i rest => placedNotes depth notes ++ (i.placed depth ++ rest.placed depth)
  | message notes name members rest =>
    placedNotes depth notes ++
      (enclosed depth (.block .message name) (members.placed (depth + 1)) ++ rest.placed depth)

def Declaration.placed : Declaration → List Placed
  | message name members => enclosed 0 (.block .message name) (members.placed 1)
  | enum name values => enclosed 0 (.block .enum name) (statements 1 .value values)
  | service name methods => enclosed 0 (.block .service name)
    (methods.flatMap fun m => placedNotes 1 m.notes ++ m.item.placed 1)

def Header.category : Header → Category
  | syntaxDecl _ => .syntaxDecl
  | packageDecl _ => .packageDecl
  | importDecl _ => .importDecl
  | publicImport _ => .importDecl
  | optionDecl _ _ => .optionDecl

/-- The lines of a schema, in groups that blank lines go between: header statements of one kind,
and declarations with their notes. -/
def paragraphs (s : Schema) : List (List Placed) :=
  (s.headers.splitBy fun h k => h.category = k.category).map (·.map fun h => ⟨0, .header h⟩) ++
    s.declarations.map fun d => placedNotes 0 d.notes ++ d.item.placed

def lines (s : Schema) : List (List Char) :=
  List.intercalate [[]] (s.paragraphs.map (·.map Placed.line))

/-- The canonical print; every line ends with a line feed. -/
def print (s : Schema) : List Char :=
  s.lines.flatMap (· ++ ['\n'])

def pieces (s : Schema) : List Piece :=
  s.paragraphs.flatten.map Placed.piece

end SchemaLint.Schema
