import SchemaLint.Proofs.Schema.Names

/-! Schemas as trees: header statements, and declarations of messages, enums and services. -/

namespace SchemaLint.Schema

/-- A statement before the declarations. -/
inductive Header
  | syntaxDecl (version : Quotable)
  | packageDecl (path : Path)
  | importDecl (file : Quotable)
  | publicImport (file : Quotable)
  | optionDecl (name : Name) (value : Quotable)

inductive Label
  | optional | repeated | required

inductive FieldType
  | path (path : Path)
  | map (key value : Path)

structure Field where
  label : Option Label
  type : FieldType
  name : Name
  number : Number

/-- A value of an enum. -/
structure Value where
  name : Name
  negative : Bool
  number : Number

inductive Range
  | one (number : Number)
  | span (low high : Number)

/-- The numbers of a reserved line, of which there is at least one. -/
structure Reserved where
  first : Range
  more : List Range

/-- What a method takes or returns. -/
structure Operand where
  stream : Bool
  type : Path

structure Signature where
  name : Name
  request : Operand
  response : Operand

/-- Something with line comments before it. -/
structure Noted (α : Type) where
  notes : List Note
  item : α

/-- A method; a body deprecates it, and may hold notes. -/
structure Method where
  signature : Signature
  body : Option (List Note)

/-- What a message holds, apart from messages. -/
inductive Item
  | field (field : Field)
  | reserved (reserved : Reserved)
  | oneof (name : Name) (fields : List (Noted Field))
  | enum (name : Name) (values : List (Noted Value))

/-- What a message holds, in order. -/
inductive Members
  | nil
  | item (notes : List Note) (item : Item) (rest : Members)
  | message (notes : List Note) (name : Name) (members : Members) (rest : Members)

inductive Declaration
  | message (name : Name) (members : Members)
  | enum (name : Name) (values : List (Noted Value))
  | service (name : Name) (methods : List (Noted Method))

def sampleField : Field where
  label := none
  type := .path ⟨⟨"int32".toList, by decide, by decide⟩, []⟩
  name := ⟨"id".toList, by decide, by decide⟩
  number := ⟨"1".toList, by decide, by decide⟩

def sampleVersion : Quotable :=
  ⟨"proto3".toList, by decide, by decide, by decide, by decide⟩

def sampleName : Name :=
  ⟨"User".toList, by decide, by decide⟩

end SchemaLint.Schema

namespace SchemaLint

structure Schema where
  headers : List Schema.Header
  declarations : List (Schema.Noted Schema.Declaration)

end SchemaLint
