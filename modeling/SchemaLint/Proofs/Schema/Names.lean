import SchemaLint.Proofs.Layout.Recognition

/-! The words of a schema: names, paths, numbers, quoted text and notes. Each carries what keeps it
apart from keywords and marks. -/

namespace SchemaLint.Schema
open SchemaLint.Text SchemaLint.Line SchemaLint.Layout

/-- Letters, digits and the underscore, of ASCII only. -/
def isPlain (c : Char) : Bool :=
  c.isAlphanum || c == '_'

/-- A letter or an underscore, and more letters, digits and underscores. -/
def isIdentifier (s : List Char) : Bool :=
  s.head?.any (fun c => c.isAlpha || c == '_') && s.all isPlain

def keywords : List String :=
  ["syntax", "package", "import", "option", "message", "enum", "service", "oneof", "extend",
    "extensions", "reserved", "rpc", "optional", "repeated", "required"]

/-- A name is an identifier that is no keyword. -/
structure Name where
  text : List Char
  identifier : isIdentifier text
  noKeyword : ∀ keyword ∈ keywords, keyword.toList ≠ text

/-- A later part of a path, which may be a keyword. -/
structure Part where
  text : List Char
  identifier : isIdentifier text

/-- A name, and what it leads to. -/
structure Path where
  first : Name
  rest : List Part

def Path.text (p : Path) : List Char :=
  p.first.text ++ p.rest.flatMap fun part => '.' :: part.text

/-- A number in decimal. -/
structure Number where
  digits : List Char
  nonempty : digits ≠ []
  decimal : ∀ c ∈ digits, c.isDigit

/-- Text that may be quoted in a statement. -/
structure Quotable where
  text : List Char
  noQuote : '"' ∉ text
  noBrace : '{' ∉ text ∧ '}' ∉ text
  noSlashes : ¬ holds "//".toList text
  noFeed : '\n' ∉ text

def Quotable.quoted (q : Quotable) : List Char :=
  '"' :: (q.text ++ ['"'])

/-- A line comment. -/
structure Note where
  text : List Char
  slashes : startsWith "//".toList text
  trimmed : trim text = text
  noFeed : '\n' ∉ text

theorem toNat_of_isPlain {c : Char} (h : isPlain c) : c.toNat < 128 := by
  rw [isPlain, Bool.or_eq_true, beq_iff_eq] at h
  rcases h with h | rfl
  · have := toNat_of_isAlphanum h
    omega
  · decide

theorem isWord_of_isPlain {c : Char} (h : isPlain c) : isWord c := by
  rw [isWord, if_pos (toNat_of_isPlain h)]
  exact h

theorem isPlain_of_isDigit {c : Char} (h : c.isDigit) : isPlain c := by
  rw [isPlain, Char.isAlphanum, h, Bool.or_true, Bool.true_or]

theorem isDigit_of_decimal {c : Char} (h : c.isDigit) : Text.isDigit c := by
  rw [Text.isDigit, digitValue?, if_pos (toNat_of_isPlain (isPlain_of_isDigit h)), if_pos h]
  rfl

/-- The characters of names, types and numbers, and the ones between them. -/
def isTerm (c : Char) : Bool :=
  isPlain c || " .,<>-".toList.contains c

/-- Names, types and numbers, perhaps several. -/
def Term (s : List Char) : Prop := ∀ c ∈ s, isTerm c

instance (s : List Char) : Decidable (Term s) :=
  inferInstanceAs (Decidable (∀ c ∈ s, isTerm c))

@[simp] theorem term_nil : Term [] := by simp [Term]

@[simp] theorem term_cons {c : Char} {s : List Char} : Term (c :: s) ↔ isTerm c ∧ Term s :=
  List.forall_mem_cons

@[simp] theorem term_append {s t : List Char} : Term (s ++ t) ↔ Term s ∧ Term t :=
  List.forall_mem_append

theorem Term.not_mem {s : List Char} (h : Term s) {c : Char} (hc : isTerm c = false) : c ∉ s := by
  intro hm
  rw [h c hm] at hc
  cases hc

theorem term_of_plain {s : List Char} (h : ∀ c ∈ s, isPlain c) : Term s := by
  intro c hc
  rw [isTerm, h c hc, Bool.true_or]

theorem isIdentifier_iff {s : List Char} :
    isIdentifier s ↔ (∃ c ∈ s.head?, c.isAlpha || c == '_') ∧ ∀ c ∈ s, isPlain c := by
  rw [isIdentifier, Bool.and_eq_true, Option.any_eq_true, List.all_eq_true]
  exact Iff.rfl

theorem Name.plain (n : Name) : ∀ c ∈ n.text, isPlain c :=
  (isIdentifier_iff.1 n.identifier).2

theorem Name.word (n : Name) : ∀ c ∈ n.text, isWord c := by
  intro c hc
  exact isWord_of_isPlain (n.plain c hc)

theorem ne_nil_of_isIdentifier {s : List Char} (h : isIdentifier s) : s ≠ [] := by
  rintro rfl
  cases h

theorem Name.ne_nil (n : Name) : n.text ≠ [] :=
  ne_nil_of_isIdentifier n.identifier

theorem Name.term (n : Name) : Term n.text :=
  term_of_plain n.plain

theorem Name.solid (n : Name) : ∀ c ∈ n.text, isBlank c = false := by
  intro c hc
  exact isBlank_of_isWord (n.word c hc)

theorem Name.ne_lineKeyword (n : Name) : ∀ k ∈ lineKeywords, k.toList ≠ n.text := by
  have hsub : ∀ k ∈ lineKeywords, k ∈ keywords := by decide
  exact fun k hk => n.noKeyword k (hsub k hk)

theorem Path.mem_text (p : Path) {c : Char} (hc : c ∈ p.text) : isPlain c ∨ c = '.' := by
  rw [Path.text, List.mem_append] at hc
  rcases hc with hc | hc
  · exact .inl (p.first.plain c hc)
  · obtain ⟨part, -, hc⟩ := List.mem_flatMap.1 hc
    rcases List.mem_cons.1 hc with rfl | hc
    · exact .inr rfl
    · exact .inl ((isIdentifier_iff.1 part.identifier).2 c hc)

theorem Path.term (p : Path) : Term p.text := by
  intro c hc
  rcases p.mem_text hc with h | rfl
  · rw [isTerm, h, Bool.true_or]
  · decide

theorem Path.solid (p : Path) : ∀ c ∈ p.text, isBlank c = false := by
  intro c hc
  rcases p.mem_text hc with h | rfl
  · exact isBlank_of_isWord (isWord_of_isPlain h)
  · decide

theorem Path.ne_nil (p : Path) : p.text ≠ [] := by
  simp [Path.text, p.first.ne_nil]

theorem Number.plain (n : Number) : ∀ c ∈ n.digits, isPlain c := by
  intro c hc
  exact isPlain_of_isDigit (n.decimal c hc)

theorem Number.solid (n : Number) : ∀ c ∈ n.digits, isBlank c = false := by
  intro c hc
  exact isBlank_of_isWord (isWord_of_isPlain (n.plain c hc))

theorem Number.term (n : Number) : Term n.digits :=
  term_of_plain n.plain

end SchemaLint.Schema
