import SchemaLint.Proofs.Document.Shapes

/-! Headings of blocks. What the readers see in the line of a message, an enum or a service does not
depend on the brace at its end, which may also stand on a line of its own below. -/

namespace SchemaLint.Line
open SchemaLint.Text SchemaLint.Layout

/-- A block keyword and a name. -/
structure Heading where
  kind : BlockKind
  name : List Char
  block : kind ∈ [.message, .enum, .service]
  ne_nil : name ≠ []
  word : ∀ c ∈ name, isWord c

def Heading.text (h : Heading) : List Char :=
  h.kind.word.toList ++ ' ' :: h.name

/-- What follows a heading: nothing, or a brace behind white space. -/
inductive HeadingTail : List Char → Prop
  | bare : HeadingTail []
  | brace {g : List Char} : Blank g → HeadingTail (g ++ ['{'])

theorem HeadingTail.head {t : List Char} (ht : HeadingTail t) :
    ∀ c ∈ t.head?, isWord c = false := by
  cases ht with
  | bare => exact nofun
  | brace hg => exact not_word_of_blank_cons hg (by decide) []

theorem HeadingTail.not_mem {t : List Char} (ht : HeadingTail t) {c : Char} (hc : ¬ isBlank c)
    (hbrace : c ≠ '{') : c ∉ t := by
  cases ht with
  | bare => exact nofun
  | brace hg =>
      intro hm
      rcases List.mem_append.1 hm with hm | hm
      · exact hc (hg c hm)
      · exact hbrace (List.mem_singleton.1 hm)

theorem count_brace {g : List Char} (hg : Blank g) : (g ++ ['{']).count '{' = 1 := by
  have hopen : '{' ∉ g := hg.not_mem (by decide)
  rw [List.count_append, List.count_eq_zero.2 hopen]
  rfl

namespace Heading
variable (h : Heading) {t : List Char} (ht : HeadingTail t)

theorem declared : h.kind ∈ BlockKind.declared := by
  have hall : ∀ kind ∈ [BlockKind.message, .enum, .service], kind ∈ BlockKind.declared := by
    decide
  exact hall h.kind h.block

theorem text_append (t : List Char) : h.text ++ t = h.kind.word.toList ++ ' ' :: (h.name ++ t) := by
  rw [text, List.append_assoc, List.cons_append]

theorem firstWord (t : List Char) : firstWord (h.text ++ t) = h.kind.word.toList := by
  rw [h.text_append]
  exact firstWord_keyword (word_of_declared _ h.declared) _

theorem firstWord_ne_nil (t : List Char) : Line.firstWord (h.text ++ t) ≠ [] := by
  have hall : ∀ kind ∈ BlockKind.declared, kind.word.toList ≠ [] := by decide
  rw [h.firstWord]
  exact hall h.kind h.declared

theorem firstWord_ne {keyword : String} (hk : ∀ kind ∈ [BlockKind.message, .enum, .service],
    keyword.toList ≠ kind.word.toList) (t : List Char) :
    keyword.toList ≠ Line.firstWord (h.text ++ t) := by
  rw [h.firstWord]
  exact hk h.kind h.block

theorem startsWord (t : List Char) : StartsWord (h.text ++ t) :=
  startsWord_of_firstWord (h.firstWord_ne_nil t)

theorem text_chars : ∀ c ∈ h.text, isWord c ∨ isBlank c := by
  intro c hc
  rcases List.mem_append.1 hc with hc | hc
  · exact .inl (word_of_declared _ h.declared c hc)
  · rcases List.mem_cons.1 hc with rfl | hc
    · exact .inr (by decide)
    · exact .inl (h.word c hc)

theorem not_mem_text {c : Char} (hc : ¬ (isWord c ∨ isBlank c)) : c ∉ h.text :=
  fun hm => hc (h.text_chars c hm)

theorem declaredName?_append {t : List Char} (ht : ∀ c ∈ t.head?, isWord c = false) :
    declaredName? h.kind.word (h.text ++ t) = some h.name := by
  have hsolid : StartsSolid (h.name ++ t) :=
    Schema.startsSolid_of_solid h.ne_nil fun c hc => isBlank_of_isWord (h.word c hc)
  have hafter : afterKeyword? [h.kind.word] (h.kind.word.toList ++ ' ' :: (h.name ++ t)) =
      some (h.name ++ t) := Document.afterKeyword?_led h.kind.word hsolid
  rw [h.text_append, declaredName?, hafter, Option.bind_some,
    word?_eq_some_iff.2 ⟨h.ne_nil, h.word, ht, rfl⟩]
  rfl

include ht

theorem not_mem {c : Char} (hc : ¬ (isWord c ∨ isBlank c)) (hbrace : c ≠ '{') :
    c ∉ h.text ++ t := by
  rw [List.mem_append, not_or]
  exact ⟨h.not_mem_text hc, ht.not_mem (fun hb => hc (.inr hb)) hbrace⟩

theorem remark : remark (h.text ++ t) = [] :=
  remark_of_no_slash (h.not_mem ht (by decide) (by decide))

theorem no_equals : '=' ∉ h.text ++ t :=
  h.not_mem ht (by decide) (by decide)

theorem typedName?_eq : typedName? (h.text ++ t) = some (h.name, t) := by
  have hall : ∀ kind ∈ BlockKind.declared, kind.word.toList ≠ [] := by decide
  rw [h.text_append]
  exact Document.typedName?_append
    (isType_word (hall h.kind h.declared) (word_of_declared _ h.declared)) h.ne_nil h.word ht.head

theorem declaredName?_eq : declaredName? h.kind.word (h.text ++ t) = some h.name :=
  h.declaredName?_append ht.head

end Heading

/-- A line with a heading and its brace, and lines with the brace below the heading. -/
inductive Lowers (l : List Char) : List (List Char) → Prop
  | mk (h : Heading) {head brace g : List Char} {gap : List (List Char)} (hg : Blank g)
      (hl : trim l = h.text ++ (g ++ ['{'])) (hhead : trim head = h.text)
      (hgap : ∀ k ∈ gap, trim k = []) (hbrace : trim brace = ['{']) :
      Lowers l (head :: (gap ++ [brace]))

end SchemaLint.Line
