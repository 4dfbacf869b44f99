import SchemaLint.Pass
import SchemaLint.Text.CodePoint

/-! Decoding bytes. Encoded surrogates are let through as code points, so a text is well formed
exactly if its code points are characters; everything else that the encodings forbid is refused. -/

namespace SchemaLint.Text

/-- Between two bytes of UTF-8. -/
inductive Utf8State
  /-- A code point is complete. -/
  | ready
  /-- `missing + 1` bytes are still to come, the next of them between `low` and `high`. -/
  | within (missing value low high : Nat)
  | refused
  deriving DecidableEq

/-- A code point is complete, if there is one of the number. -/
def Utf8State.complete (n : Nat) : Utf8State × List CodePoint :=
  match CodePoint.ofNat? n with
  | some p => (.ready, [p])
  | none => (.refused, [])

/-- The first byte of a code point. It decides how many follow, and the bounds on the second keep
out overlong forms and numbers that are too large. -/
def Utf8State.start (b : Nat) : Utf8State × List CodePoint :=
  if b < 0x80 then complete b
  else if b < 0xc2 then (.refused, [])
  else if b < 0xe0 then (.within 0 (b - 0xc0) 0x80 0xbf, [])
  else if b < 0xf0 then (.within 1 (b - 0xe0) (if b = 0xe0 then 0xa0 else 0x80) 0xbf, [])
  else if b < 0xf5 then
    (.within 2 (b - 0xf0) (if b = 0xf0 then 0x90 else 0x80) (if b = 0xf4 then 0x8f else 0xbf), [])
  else (.refused, [])

def Utf8State.step (s : Utf8State) (byte : UInt8) : Utf8State × List CodePoint :=
  let b := byte.toNat
  match s with
  | .ready => start b
  | .within missing value low high =>
    if low ≤ b && b ≤ high then
      let value := 0x40 * value + (b - 0x80)
      match missing with
      | 0 => complete value
      | missing + 1 => (.within missing value 0x80 0xbf, [])
    else (.refused, [])
  | .refused => (.refused, [])

def decodeUtf8? (bytes : List UInt8) : Option (List CodePoint) :=
  match Pass.run Utf8State.step .ready bytes with
  | (.ready, text) => some text
  | _ => none

def utf8Size (s : List Char) : Nat :=
  s.foldl (fun n c => n + c.utf8Size) 0

/-- The number that bytes stand for, the most significant first. -/
def ofBytes (bytes : List UInt8) : Nat :=
  bytes.foldl (fun n b => 0x100 * n + b.toNat) 0

/-- One byte of a text whose units have `size` bytes; the state is the unit so far, its last byte
first. -/
def unitStep (size : Nat) (bigEndian : Bool) (sofar : List UInt8) (byte : UInt8) :
    List UInt8 × List Nat :=
  let unit := byte :: sofar
  if unit.length < size then (unit, [])
  else ([], [ofBytes (if bigEndian then unit.reverse else unit)])

/-- The units of a text, unless bytes are left over. -/
def units? (size : Nat) (bigEndian : Bool) (bytes : List UInt8) : Option (List Nat) :=
  match Pass.run (unitStep size bigEndian) [] bytes with
  | ([], units) => some units
  | _ => none

/-- Joins pairs of surrogates, which leaves the others standing alone. -/
def joinPairs : List Nat → List Nat
  | high :: low :: units =>
    if 0xd800 ≤ high && high < 0xdc00 && 0xdc00 ≤ low && low < 0xe000 then
      (0x10000 + 0x400 * (high - 0xd800) + (low - 0xdc00)) :: joinPairs units
    else high :: joinPairs (low :: units)
  | units => units

def decodeUtf16? (bigEndian : Bool) (bytes : List UInt8) : Option (List CodePoint) :=
  (units? 2 bigEndian bytes).bind fun units => (joinPairs units).mapM CodePoint.ofNat?

def decodeUtf32? (bigEndian : Bool) (bytes : List UInt8) : Option (List CodePoint) :=
  (units? 4 bigEndian bytes).bind fun units => units.mapM CodePoint.ofNat?

end SchemaLint.Text
