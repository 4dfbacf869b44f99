import SchemaLint.Json.Value
import SchemaLint.Numeral

/-! Reading JSON. Beyond the standard, `NaN`, `Infinity` and `-Infinity` are numbers, and an escape
may name a surrogate that stands alone; control characters inside strings are refused. Of fields of
one name the last counts. Every reader answers with what follows. -/

namespace SchemaLint.Json
open SchemaLint.Text

/-- Why text is not read: it is not JSON, or an integer in it has too many digits. -/
inductive Fault
  | malformed
  | overlong (digits : Nat)
  deriving DecidableEq

def isSpace : CodePoint → Bool
  | .char c => c == ' ' || c == '\t' || c == '\n' || c == '\r'
  | .lone _ => false

def skip (s : List CodePoint) : List CodePoint :=
  s.dropWhile isSpace

def hexValue? : CodePoint → Option Nat
  | .char c =>
    if c.isDigit then some (c.toNat - '0'.toNat)
    else if 'a' ≤ c && c ≤ 'f' then some (c.toNat - 'a'.toNat + 10)
    else if 'A' ≤ c && c ≤ 'F' then some (c.toNat - 'A'.toNat + 10)
    else none
  | .lone _ => none

/-- The number that four hexadecimal digits stand for. -/
def unit? (a b c d : CodePoint) : Option Nat := do
  return 0x1000 * (← hexValue? a) + 0x100 * (← hexValue? b) + 0x10 * (← hexValue? c) +
    (← hexValue? d)

def isHighSurrogate (n : Nat) : Bool := 0xd800 ≤ n && n < 0xdc00

def isLowSurrogate (n : Nat) : Bool := 0xdc00 ≤ n && n < 0xe000

def pair (high low : Nat) : Nat :=
  0x10000 + 0x400 * (high - 0xd800) + (low - 0xdc00)

/-- The character that a one-character escape names. -/
def escaped? (c : Char) : Option Char :=
  [('"', '"'), ('\\', '\\'), ('/', '/'), ('b', '\x08'), ('f', '\x0c'), ('n', '\n'), ('r', '\r'),
    ('t', '\t')].lookup c

/-- A numbered escape after its introduction: a code unit, joined with the next escape if the two
are a surrogate pair. -/
def numberedEscape? : List CodePoint → Option (CodePoint × List CodePoint)
  | a :: b :: c :: d :: rest => do
    let unit ← unit? a b c d
    let single := (← CodePoint.ofNat? unit, rest)
    if isHighSurrogate unit then
      match rest with
      | .char '\\' :: .char 'u' :: a :: b :: c :: d :: rest =>
        let next ← unit? a b c d
        if isLowSurrogate next then return (← CodePoint.ofNat? (pair unit next), rest)
        else return single
      | _ => return single
    else return single
  | _ => none

/-- One code point of a string and what follows it. A quote does not get here. -/
def stringPoint? : List CodePoint → Option (CodePoint × List CodePoint)
  | .char '\\' :: .char 'u' :: rest => numberedEscape? rest
  | .char '\\' :: .char c :: rest => (escaped? c).map fun c => (.char c, rest)
  | .char '\\' :: _ => none
  | p :: rest => if p.toNat < 32 then none else some (p, rest)
  | [] => none

theorem length_lt_of_numberedEscape? {s rest : List CodePoint} {p : CodePoint}
    (h : numberedEscape? s = some (p, rest)) : rest.length < s.length := by
  unfold numberedEscape? at h
  split at h
  · simp only [bind, Option.bind_eq_some_iff, pure] at h
    obtain ⟨unit, -, single, -, h⟩ := h
    split at h
    · split at h
      · obtain ⟨next, -, h⟩ := Option.bind_eq_some_iff.1 h
        split at h
        · obtain ⟨joined, -, h⟩ := Option.bind_eq_some_iff.1 h
          cases h; simp only [List.length_cons]; omega
        · cases h; simp only [List.length_cons]; omega
      · cases h; simp only [List.length_cons]; omega
    · cases h; simp only [List.length_cons]; omega
  · cases h

theorem length_lt_of_stringPoint? {s rest : List CodePoint} {p : CodePoint}
    (h : stringPoint? s = some (p, rest)) : rest.length < s.length := by
  unfold stringPoint? at h
  split at h
  · have := length_lt_of_numberedEscape? h
    simp only [List.length_cons]; omega
  · obtain ⟨c, -, h⟩ := Option.map_eq_some_iff.1 h
    cases h; simp only [List.length_cons]; omega
  · cases h
  · split at h
    · cases h
    · cases h; simp only [List.length_cons]; omega
  · cases h

/-- The rest of a string after its opening quote; `sofar` is what was read, the last first. -/
def stringRest (sofar : List CodePoint) (s : List CodePoint) :
    Except Fault (List CodePoint × List CodePoint) :=
  match s with
  | .char '"' :: rest => .ok (sofar.reverse, rest)
  | s =>
    match _h : stringPoint? s with
    | none => .error .malformed
    | some (p, rest) => stringRest (p :: sofar) rest
termination_by s.length
decreasing_by exact length_lt_of_stringPoint? (by assumption)

def plainDigits : List CodePoint → List Char × List CodePoint
  | .char c :: s =>
    if c.isDigit then
      let (digits, rest) := plainDigits s
      (c :: digits, rest)
    else ([], .char c :: s)
  | s => ([], s)

def fraction (s : List CodePoint) : List Char × List CodePoint :=
  match s with
  | .char '.' :: rest =>
    match plainDigits rest with
    | ([], _) => ([], s)
    | read => read
  | _ => ([], s)

def exponent? (s : List CodePoint) : Option Int × List CodePoint :=
  match s with
  | .char c :: rest =>
    if c = 'e' || c = 'E' then
      let (negative, digits, after) := match rest with
        | .char '-' :: rest => let (digits, after) := plainDigits rest; (true, digits, after)
        | .char '+' :: rest => let (digits, after) := plainDigits rest; (false, digits, after)
        | rest => let (digits, after) := plainDigits rest; (false, digits, after)
      if digits = [] then (none, s)
      else (some (Numeral.signed negative (Numeral.value digits)), after)
    else (none, s)
  | _ => (none, s)

/-- A number after its sign. Digits do not follow a leading zero. -/
def number (negative : Bool) (s : List CodePoint) : Except Fault (Json × List CodePoint) :=
  let (whole, rest) := match s with
    | .char '0' :: rest => (['0'], rest)
    | s => plainDigits s
  if whole = [] then .error .malformed
  else
    let (parts, rest) := fraction rest
    let (exponent, rest) := exponent? rest
    if parts = [] && exponent.isNone then
      match Numeral.read whole with
      | .ok n => .ok (.int (Numeral.signed negative n), rest)
      | .error _ => .error (.overlong whole.length)
    else
      let coefficient := Numeral.value (whole ++ parts)
      .ok (.real (.finite ⟨negative, coefficient, exponent.getD 0 - parts.length⟩), rest)

def literal? (text : String) (s : List CodePoint) : Option (List CodePoint) :=
  if (ofChars text.toList).isPrefixOf s then some (s.drop text.length) else none

def words : List (String × Json) :=
  [("null", .null), ("true", .bool true), ("false", .bool false), ("NaN", .real .nan),
    ("Infinity", .real (.infinite false)), ("-Infinity", .real (.infinite true))]

def scalar (s : List CodePoint) : Except Fault (Json × List CodePoint) :=
  match words.findSome? fun (text, value) => (literal? text s).map (value, ·) with
  | some read => .ok read
  | none => match s with
    | .char '"' :: rest => (stringRest [] rest).map fun (text, rest) => (.str text, rest)
    | .char '-' :: rest => number true rest
    | s => number false s

mutual

def value : Nat → List CodePoint → Except Fault (Json × List CodePoint)
  | 0, _ => .error .malformed
  | fuel + 1, s => match s with
    | .char '[' :: rest => match skip rest with
      | .char ']' :: rest => .ok (.list [], rest)
      | rest => items fuel [] rest
    | .char '{' :: rest => match skip rest with
      | .char '}' :: rest => .ok (.object [], rest)
      | rest => fields fuel [] rest
    | s => scalar s

/-- The items of a list that is not at its end. -/
def items : Nat → List Json → List CodePoint → Except Fault (Json × List CodePoint)
  | 0, _, _ => .error .malformed
  | fuel + 1, sofar, s => do
    let (item, rest) ← value fuel s
    match skip rest with
    | .char ',' :: rest => items fuel (item :: sofar) (skip rest)
    | .char ']' :: rest => return (.list (item :: sofar).reverse, rest)
    | _ => throw .malformed

/-- The fields of an object that is not at its end. -/
def fields : Nat → List (List CodePoint × Json) → List CodePoint →
    Except Fault (Json × List CodePoint)
  | 0, _, _ => .error .malformed
  | fuel + 1, sofar, s => match s with
    | .char '"' :: rest => do
      let (name, rest) ← stringRest [] rest
      match skip rest with
      | .char ':' :: rest =>
        let (content, rest) ← value fuel (skip rest)
        let sofar := put name content sofar
        match skip rest with
        | .char ',' :: rest => fields fuel sofar (skip rest)
        | .char '}' :: rest => return (.object sofar, rest)
        | _ => throw .malformed
      | _ => throw .malformed
    | _ => .error .malformed

end

/-- The value that a text holds. Each character leads to at most two nested readings, so the fuel
is never used up. -/
def parse (text : List CodePoint) : Except Fault Json := do
  let (read, rest) ← value (2 * text.length + 2) (skip text)
  if skip rest = [] then return read else throw .malformed

end SchemaLint.Json
