/-! Decimal numbers and the binary numbers of 53 bits that are nearest to them. -/

namespace SchemaLint

/-- The decimal `± coefficient · 10 ^ exponent`. -/
structure Decimal where
  negative : Bool
  coefficient : Nat
  exponent : Int
  deriving DecidableEq

/-- The binary number `significand · 2 ^ exponent`. -/
structure Binary where
  significand : Nat
  exponent : Int
  deriving DecidableEq

namespace Binary

def precision : Nat := 53

/-- The least exponent and the greatest. -/
def minExponent : Int := -1074
def maxExponent : Int := 971

def floor (b : Binary) : Nat :=
  b.significand * Nat.pow 2 b.exponent.toNat / Nat.pow 2 (-b.exponent).toNat

def isWhole (b : Binary) : Bool :=
  b.significand % Nat.pow 2 (-b.exponent).toNat = 0

end Binary

/-- The whole number nearest to a fraction; a half goes to the even neighbour. -/
def roundDiv (num den : Nat) : Nat :=
  let q := num / den
  let r := num % den
  if den < 2 * r || (2 * r = den && q % 2 = 1) then q + 1 else q

namespace Decimal

def fraction (d : Decimal) : Nat × Nat :=
  (d.coefficient * Nat.pow 10 d.exponent.toNat, Nat.pow 10 (-d.exponent).toNat)

/-- The fraction `num / den` in units of `2 ^ q`. -/
def inUnits (num den : Nat) (q : Int) : Nat × Nat :=
  (num * Nat.pow 2 (-q).toNat, den * Nat.pow 2 q.toNat)

/-- The binary number nearest to a positive fraction, if it is not too large. -/
def nearestOf? (num den : Nat) : Option Binary :=
  let guess : Int := max (num.log2 - den.log2 - Binary.precision) Binary.minExponent
  let (n, m) := inUnits num den guess
  let q := if n / m < Nat.pow 2 Binary.precision then guess else guess + 1
  let (n, m) := inUnits num den q
  let s := roundDiv n m
  let b : Binary := if s = Nat.pow 2 Binary.precision then ⟨s / 2, q + 1⟩ else ⟨s, q⟩
  if b.exponent ≤ Binary.maxExponent then some b else none

/-- The magnitude of the nearest binary number, if it is not too large. Magnitudes from `10 ^ 310`
up and below `10 ^ -330` need no division. -/
def nearest? (d : Decimal) : Option Binary :=
  let top : Int := (Nat.toDigits 10 d.coefficient).length + d.exponent
  if d.coefficient = 0 || top < -330 then some ⟨0, Binary.minExponent⟩
  else if top > 310 then none
  else nearestOf? d.fraction.1 d.fraction.2

end Decimal

end SchemaLint
