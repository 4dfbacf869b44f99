import SchemaLint.Text.WordRanges
import SchemaLint.Text.PrintableRanges
import SchemaLint.Text.DigitZeros

/-! Character classes: words, decimal digits and printable characters. ASCII is decided without
the tables. -/

namespace SchemaLint.Text

def inRanges (n : Nat) : List (Nat × Nat) → Bool
  | [] => false
  | (low, high) :: rest => low ≤ n && (n ≤ high || inRanges n rest)

/-- Letters, digits, every other character with a numeric value, and the underscore. -/
def isWord (c : Char) : Bool :=
  if c.toNat < 128 then c.isAlphanum || c == '_' else inRanges c.toNat wordRanges

def digitValue? (c : Char) : Option Nat :=
  if c.toNat < 128 then
    if c.isDigit then some (c.toNat - '0'.toNat) else none
  else
    digitZeros.findSome? fun start =>
      if start ≤ c.toNat && c.toNat < start + 10 then some (c.toNat - start) else none

/-- Decimal digits of any script. -/
def isDigit (c : Char) : Bool :=
  (digitValue? c).isSome

/-- Characters that quoted text shows as themselves. -/
def isPrintable (c : Char) : Bool :=
  if c.toNat < 128 then 32 ≤ c.toNat && c.toNat < 127 else inRanges c.toNat printableRanges

theorem isDigit_iff {c : Char} : isDigit c ↔ ∃ v, digitValue? c = some v :=
  Option.isSome_iff_exists

end SchemaLint.Text
