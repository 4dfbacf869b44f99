import SchemaLint.Decimal

/-! The shortest decimal that reads back as a binary number: the coarsest decimal grid with a point
in the interval of numbers that round to it, and of two such points the nearer one. -/

namespace SchemaLint.Binary

/-- The coefficient and the exponent of ten of a decimal. -/
abbrev Point := Nat × Int

/-- The exponent of ten of the first digit of a positive fraction. -/
def leadingExponent (num den : Nat) : Int :=
  if den ≤ num then (Nat.toDigits 10 (num / den)).length - 1
  else -((Nat.toDigits 10 ((den - 1) / num)).length : Int)

/-- A quarter of the number's unit, in which its neighbours' midpoints are whole. -/
def quarterExponent (b : Binary) : Int :=
  b.exponent - 2

/-- `x` quarters of the number's unit, and `k` points of the grid `10 ^ p`, on one scale. -/
def quarters (b : Binary) (p : Int) (x : Nat) : Nat :=
  x * Nat.pow 10 (-p).toNat * Nat.pow 2 b.quarterExponent.toNat

def gridPoints (b : Binary) (p : Int) (k : Nat) : Nat :=
  k * Nat.pow 10 p.toNat * Nat.pow 2 (-b.quarterExponent).toNat

/-- The quarters between the number and the midpoint below it: the gap below a power of two is
half as wide. -/
def quartersBelow (b : Binary) : Nat :=
  if b.significand = Nat.pow 2 (precision - 1) && minExponent < b.exponent then 1 else 2

/-- A point of the grid rounds to the number; midpoints go to even significands. -/
def attracts (b : Binary) (p : Int) (k : Nat) : Bool :=
  let low := b.quarters p (4 * b.significand - b.quartersBelow)
  let high := b.quarters p (4 * b.significand + 2)
  let x := b.gridPoints p k
  if b.significand % 2 = 0 then low ≤ x && x ≤ high else low < x && x < high

/-- The point of the grid to be taken, if one rounds to the number. -/
def onGrid? (b : Binary) (p : Int) : Option Point :=
  let here := b.quarters p (4 * b.significand)
  let k := here / b.gridPoints p 1
  let below := here - b.gridPoints p k
  let above := b.gridPoints p (k + 1) - here
  let (near, far) :=
    if below < above || (below = above && k % 2 = 0) then (k, k + 1) else (k + 1, k)
  if b.attracts p near then some (near, p)
  else if b.attracts p far then some (far, p)
  else none

/-- The shortest decimal of a positive number. Seventeen digits always suffice. -/
def shortest (b : Binary) : Point :=
  let (num, den) := (b.significand * Nat.pow 2 b.exponent.toNat, Nat.pow 2 (-b.exponent).toNat)
  let e := leadingExponent num den
  ((List.range 17).findSome? fun (n : Nat) => b.onGrid? (e - n)).getD (0, 0)

end SchemaLint.Binary

namespace SchemaLint.Decimal

/-- The digits without the zeros at their end. -/
def significantDigits (k : Nat) : List Char :=
  ((Nat.toDigits 10 k).reverse.dropWhile (· == '0')).reverse

/-- The text of a magnitude whose point stands after `point` of the digits: positional from
`10 ^ -4` up to below `10 ^ 16`, with an exponent of at least two digits otherwise. -/
def layout (digits : List Char) (point : Int) : List Char :=
  if -4 < point && point ≤ 0 then
    "0.".toList ++ List.replicate (-point).toNat '0' ++ digits
  else if 0 < point && point ≤ 16 then
    let n := point.toNat
    let whole := digits.take n ++ List.replicate (n - digits.length) '0'
    let rest := digits.drop n
    whole ++ '.' :: if rest = [] then ['0'] else rest
  else
    let e := point - 1
    let size := Nat.toDigits 10 e.natAbs
    let lead := match digits with
      | [] => []
      | [d] => [d]
      | d :: rest => d :: '.' :: rest
    lead ++ 'e' :: (if e < 0 then '-' else '+') :: (List.replicate (2 - size.length) '0' ++ size)

/-- The shortest text that reads back as the nearest binary number. -/
def shortestText (d : Decimal) : List Char :=
  let magnitude := match d.nearest? with
    | none => "Infinity".toList
    | some b =>
      if b.significand = 0 then "0.0".toList
      else
        let (k, p) := b.shortest
        layout (significantDigits k) ((Nat.toDigits 10 k).length + p)
  if d.negative then '-' :: magnitude else magnitude

end SchemaLint.Decimal
