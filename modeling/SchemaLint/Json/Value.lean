import SchemaLint.Decimal
import SchemaLint.Text.CodePoint

/-! JSON values. Integers are exact; other numbers keep the decimal that was written. Strings are
code points, since an escape can name half a surrogate pair. -/

namespace SchemaLint

/-- A number that is not written as an integer. -/
inductive Real
  | finite (value : Decimal)
  | infinite (negative : Bool)
  | nan
  deriving DecidableEq

inductive Json
  | null
  | bool (b : Bool)
  | int (n : Int)
  | real (r : Real)
  | str (s : List Text.CodePoint)
  | list (items : List Json)
  /-- The fields have different names; they keep the order in which the names came. -/
  | object (fields : List (List Text.CodePoint × Json))
  deriving Inhabited

namespace Json
open SchemaLint.Text

def ofString (s : String) : Json :=
  .str (ofChars s.toList)

/-- A field of an object; other values have none. -/
def field? (name : String) : Json → Option Json
  | .object fields => fields.lookup (ofChars name.toList)
  | _ => none

/-- Sets a field. A name that is there keeps its place and takes the new value. -/
def put {α : Type} [BEq α] (name : α) (value : Json) : List (α × Json) → List (α × Json)
  | [] => [(name, value)]
  | (other, old) :: fields =>
    if other == name then (other, value) :: fields else (other, old) :: put name value fields

end Json

end SchemaLint
