/-! Code points as they occur in decoded text: characters, and surrogates that stand alone. -/

namespace SchemaLint.Text

/-- A code point of text that need not be well formed. -/
inductive CodePoint
  | char (c : Char)
  /-- The surrogate `0xD800 + offset`, standing alone. -/
  | lone (offset : Fin 0x800)
  deriving DecidableEq, Inhabited

namespace CodePoint

def toNat : CodePoint → Nat
  | .char c => c.toNat
  | .lone k => 0xd800 + k.val

/-- The code point of a number below `0x110000`. -/
def ofNat? (n : Nat) : Option CodePoint :=
  if h : n.isValidChar then some (.char (Char.ofNatAux n h))
  else if h : n - 0xd800 < 0x800 then some (.lone ⟨n - 0xd800, h⟩)
  else none

/-- The character, unless the code point is a surrogate. -/
def char? : CodePoint → Option Char
  | .char c => some c
  | .lone _ => none

@[simp] theorem char?_char (c : Char) : (char c).char? = some c := rfl

end CodePoint

def ofChars (s : List Char) : List CodePoint :=
  s.map .char

/-- The characters of the text, unless a surrogate stands alone in it. -/
def chars? (s : List CodePoint) : Option (List Char) :=
  s.mapM CodePoint.char?

@[simp] theorem chars?_ofChars (s : List Char) : chars? (ofChars s) = some s := by
  induction s with
  | nil => rfl
  | cons c s ih =>
    simp only [chars?, ofChars] at ih
    simp [chars?, ofChars, ih]

end SchemaLint.Text
