import SchemaLint.Text.Blank
import SchemaLint.Text.Class

/-! Reading text from the left. A reader answers with what it read, where that is of use, and
with the text that follows; it answers nothing if the text does not start that way. Every run is
as long as it can be. -/

namespace SchemaLint.Text

def after? : List Char → List Char → Option (List Char)
  | [], s => some s
  | _ :: _, [] => none
  | a :: lead, c :: s => if a = c then after? lead s else none

def startsWith (lead s : List Char) : Bool :=
  (after? lead s).isSome

def afterBlanks? : List Char → Option (List Char)
  | [] => none
  | c :: s => if isBlank c then some (trimStart s) else none

/-- The nonempty run of characters of a class, and what follows. -/
def run? (p : Char → Bool) (s : List Char) : Option (List Char × List Char) :=
  match s.takeWhile p with
  | [] => none
  | run => some (run, s.dropWhile p)

def word? : List Char → Option (List Char × List Char) :=
  run? isWord

def digits? : List Char → Option (List Char × List Char) :=
  run? isDigit

/-- What precedes the first `mark`, and what follows it. -/
def until? (mark : Char) (s : List Char) : Option (List Char × List Char) :=
  match s.dropWhile (· != mark) with
  | [] => none
  | _ :: rest => some (s.takeWhile (· != mark), rest)

/-- Some end of the text passes the test; the empty end counts. -/
def someEnd (p : List Char → Bool) : List Char → Bool
  | [] => p []
  | c :: s => p (c :: s) || someEnd p s

def holds (part : List Char) : List Char → Bool :=
  someEnd (startsWith part)

/-- At the end of the text, or at a line feed that ends it. -/
def atEnd : List Char → Bool
  | [] => true
  | ['\n'] => true
  | _ => false

def dropFinalFeed (s : List Char) : List Char :=
  if s.getLast? = some '\n' then s.dropLast else s

theorem after?_eq_some_iff {lead s rest : List Char} :
    after? lead s = some rest ↔ s = lead ++ rest := by
  induction lead generalizing s with
  | nil => simp [after?]
  | cons a lead ih =>
    cases s with
    | nil => simp [after?]
    | cons c s =>
      by_cases h : a = c
      · simp [after?, h, ih]
      · simp [after?, h, Ne.symm h]

@[simp] theorem after?_append (lead rest : List Char) : after? lead (lead ++ rest) = some rest :=
  after?_eq_some_iff.2 rfl

theorem startsWith_iff {lead s : List Char} : startsWith lead s ↔ lead <+: s := by
  rw [startsWith, Option.isSome_iff_exists]
  constructor
  · rintro ⟨rest, h⟩
    exact ⟨rest, (after?_eq_some_iff.1 h).symm⟩
  · rintro ⟨rest, h⟩
    exact ⟨rest, after?_eq_some_iff.2 h.symm⟩

theorem run?_eq_some_iff {p : Char → Bool} {s run rest : List Char} :
    run? p s = some (run, rest) ↔ run ≠ [] ∧ s.takeWhile p = run ∧ s.dropWhile p = rest := by
  unfold run?
  cases h : s.takeWhile p with
  | nil =>
    constructor
    · intro h'; cases h'
    · rintro ⟨hr, he, -⟩; exact absurd he.symm hr
  | cons c cs =>
    simp only [Option.some.injEq, Prod.mk.injEq]
    constructor
    · rintro ⟨rfl, rfl⟩; simp
    · rintro ⟨-, rfl, rfl⟩; simp

theorem run?_append {p : Char → Bool} {s run rest : List Char} (h : run? p s = some (run, rest)) :
    s = run ++ rest := by
  obtain ⟨-, rfl, rfl⟩ := run?_eq_some_iff.1 h
  simp

theorem someEnd_iff {p : List Char → Bool} {s : List Char} :
    someEnd p s ↔ ∃ t, t <:+ s ∧ p t := by
  induction s with
  | nil => simp [someEnd]
  | cons c s ih =>
    simp only [someEnd, Bool.or_eq_true, ih, List.suffix_cons_iff]
    constructor
    · rintro (h | ⟨t, ht, h⟩)
      · exact ⟨_, .inl rfl, h⟩
      · exact ⟨t, .inr ht, h⟩
    · rintro ⟨t, rfl | ht, h⟩
      · exact .inl h
      · exact .inr ⟨t, ht, h⟩

end SchemaLint.Text
