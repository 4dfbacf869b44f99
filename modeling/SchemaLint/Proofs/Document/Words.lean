import SchemaLint.Proofs.Document.Tree
import SchemaLint.Proofs.Line.FirstWord
import SchemaLint.Proofs.Schema.Pieces

/-! The texts of a well-formed source: the word that each starts with, and the characters that it
does not hold. Each is code without a comment. -/

namespace SchemaLint.Document
open SchemaLint.Text SchemaLint.Schema
open SchemaLint.Line hiding Opener

/-- The keyword that the statement starts with; fields and enum values start with none. -/
def Leaf.keyword? : Leaf → Option String
  | header h => some (headerKeyword h)
  | field _ => none
  | reserved _ => some "reserved"
  | value _ => none
  | method _ => some "rpc"
  | deprecated => some "option"

/-- The keyword that the first line of a block starts with. -/
def openerKeyword : Opener → String
  | .block keyword _ => keyword.word
  | .method _ => "rpc"

theorem keywords_spec : ∀ k ∈ keywords, k.toList ≠ [] ∧ ∀ c ∈ k.toList, isWord c := by
  decide

theorem openerKeyword_mem (o : Opener) : openerKeyword o ∈ keywords := by
  cases o with
  | block keyword name => cases keyword <;> simp [openerKeyword, Keyword.word, keywords]
  | method s => simp [openerKeyword, keywords]

theorem firstWord_led {k : String} (hk : k ∈ keywords) (rest t : List Char) :
    firstWord (led k rest ++ t) = k.toList := by
  rw [led, List.append_assoc]
  exact firstWord_keyword (keywords_spec k hk).2 _

theorem firstWord_opener (o : Opener) (t : List Char) :
    firstWord (o.front ++ t) = (openerKeyword o).toList := by
  have hk := openerKeyword_mem o
  cases o with
  | block keyword name => exact firstWord_led hk _ _
  | method s => exact firstWord_led hk _ _

theorem firstWord_field (f : Field) (t : List Char) :
    firstWord (f.front ++ t) ≠ [] ∧
      ∀ k ∈ keywords, k ∉ fieldLabels → k.toList ≠ firstWord (f.front ++ t) := by
  obtain ⟨w, rest, hfront, hn, hw, hr, hrest, hk⟩ := f.lead
  have : firstWord (f.front ++ t) = w := by
    rw [hfront, List.append_assoc]
    refine firstWord_append hw fun c hc => hrest c ?_
    rwa [List.head?_append_of_ne_nil _ hr] at hc
  rw [this]
  exact ⟨hn, hk⟩

theorem firstWord_name (n : Name) {t : List Char} (ht : ∀ c ∈ t.head?, isWord c = false) :
    firstWord (n.text ++ t) = n.text :=
  firstWord_append n.word ht

theorem startsWith_led (keyword : String) (rest : List Char) :
    startsWith (keyword.toList ++ [' ']) (led keyword rest) := by
  refine startsWith_iff.2 ⟨rest, ?_⟩
  rw [led, List.append_assoc, List.singleton_append]

theorem header_text (h : Header) :
    (Leaf.header h).text = led (headerKeyword h) (headerRest h ++ [';']) :=
  (led_append _ _ _).symm

theorem Leaf.firstWord_of_keyword {l : Leaf} {k : String} (h : l.keyword? = some k)
    (t : List Char) : k ∈ keywords ∧ firstWord (l.stem ++ t) = k.toList := by
  have lead : ∀ {k : String} (rest : List Char), k ∈ keywords →
      k ∈ keywords ∧ firstWord (led k rest ++ t) = k.toList :=
    fun rest hk => ⟨hk, firstWord_led hk rest t⟩
  cases l with
  | header g =>
      cases h
      exact lead _ (by cases g <;> simp [headerKeyword, keywords])
  | field f => cases h
  | reserved r =>
      cases h
      exact lead _ (by decide)
  | value v => cases h
  | method s =>
      cases h
      exact lead _ (by decide)
  | deprecated =>
      cases h
      exact lead _ (by decide)

/-- Every statement starts with a word, which is its keyword, or a label, or else no keyword. -/
theorem Leaf.firstWord_spec (l : Leaf) {t : List Char} :
    firstWord (l.stem ++ t) ≠ [] ∧
      ∀ k ∈ keywords, k ∉ fieldLabels → l.keyword? ≠ some k →
        k.toList ≠ firstWord (l.stem ++ t) := by
  cases hl : l.keyword? with
  | some k =>
      obtain ⟨hk, he⟩ := Leaf.firstWord_of_keyword hl t
      rw [he]
      refine ⟨(keywords_spec k hk).1, fun k' _ _ hne hs => hne ?_⟩
      rw [String.toList_injective hs]
  | none =>
      cases l with
      | field f =>
          rw [Leaf.stem, assigned, List.append_assoc]
          exact ⟨(firstWord_field f _).1, fun k hk hlabel _ => (firstWord_field f _).2 k hk hlabel⟩
      | value v =>
          rw [Leaf.stem, assigned, List.append_assoc,
            firstWord_name v.name fun c hc => by cases hc; decide]
          exact ⟨v.name.ne_nil, fun k hk _ _ => v.name.noKeyword k hk⟩
      | _ => cases hl

theorem inner_led {k : String} (hk : k ∈ keywords) {rest : List Char} (h : Inner rest) :
    Inner (led k rest) := by
  have hkeyword : ∀ k ∈ keywords, Inner k.toList := by decide
  exact inner_append.2 ⟨hkeyword k hk, List.forall_mem_cons.2 ⟨by decide, h⟩⟩

theorem inner_assigned {front number : List Char} (hf : Inner front) (hn : Inner number) :
    Inner (assigned front number) := by
  have hmarks : Inner [' ', '=', ' '] := by decide
  exact inner_append.2 ⟨hf, inner_append.2 ⟨hmarks, hn⟩⟩

theorem inner_signature (s : Signature) : Inner s.text := by
  have hparen : isInner '(' := by decide
  refine inner_led (by decide) (inner_append.2 ⟨s.name.term.inner, ?_⟩)
  refine List.forall_mem_cons.2 ⟨hparen, inner_append.2 ⟨s.request.term.inner, ?_⟩⟩
  exact inner_append.2 ⟨by decide, inner_append.2 ⟨s.response.term.inner, by decide⟩⟩

theorem inner_front (o : Opener) : Inner o.front := by
  have hk := openerKeyword_mem o
  cases o with
  | block keyword name => exact inner_led hk name.term.inner
  | method s => exact inner_signature s

/-- The characters of a statement's text, but for what a header statement quotes. -/
def isWritten (c : Char) : Bool :=
  isInner c || c == '"'

theorem Leaf.stem_chars (l : Leaf) : (∃ h, l = .header h) ∨ ∀ c ∈ l.stem, isWritten c := by
  have inner : ∀ {s : List Char}, Inner s → ∀ c ∈ s, isWritten c := by
    intro s h c hc
    rw [isWritten, h c hc, Bool.true_or]
  cases l with
  | header h => exact .inl ⟨h, rfl⟩
  | field f => exact .inr (inner (inner_assigned f.term.inner f.number.term.inner))
  | reserved r =>
      refine .inr fun c hc => ?_
      rw [Leaf.stem, led, ← List.singleton_append, ← List.append_assoc, List.mem_append] at hc
      rcases hc with hc | hc
      · exact inner (s := "reserved ".toList) (by decide) c hc
      · have := r.plain c hc
        rw [Bool.or_eq_true] at this
        rcases this with h | h
        · rw [isWritten, isInner, h, Bool.true_or, Bool.true_or]
        · rw [isWritten, h, Bool.or_true]
  | value v => exact .inr (inner (inner_assigned v.name.term.inner v.numeral_facts.2.1.inner))
  | method s => exact .inr (inner (inner_signature s))
  | deprecated => exact .inr (inner (by decide))

/-- What a header statement holds ends in quoted text, or quotes nothing. -/
theorem header_parts (h : Header) :
    ∃ front, Inner front ∧
      (headerRest h = front ∨ ∃ q : Quotable, headerRest h = front ++ q.quoted) := by
  cases h with
  | syntaxDecl q => exact ⟨['=', ' '], by decide, .inr ⟨q, rfl⟩⟩
  | packageDecl p => exact ⟨p.text, p.term.inner, .inl rfl⟩
  | importDecl q => exact ⟨[], by decide, .inr ⟨q, rfl⟩⟩
  | publicImport q =>
      exact ⟨led "public" [], by decide, .inr ⟨q, led_append "public" [] q.quoted⟩⟩
  | optionDecl n q =>
      exact ⟨assigned n.text [], inner_assigned n.term.inner (by decide),
        .inr ⟨q, assigned_append n.text [] q.quoted⟩⟩

theorem Leaf.inline (l : Leaf) : Inline l.stem := by
  rcases l.stem_chars with ⟨h, rfl⟩ | hl
  · have hk := (Leaf.firstWord_of_keyword (l := .header h) rfl []).1
    obtain ⟨front, hf, he | ⟨q, he⟩⟩ := header_parts h
    · rw [Leaf.stem, he]
      exact (inner_led hk hf).inline
    · rw [Leaf.stem, he, led_append]
      exact inline_append.2 ⟨(inner_led hk hf).inline, q.inline⟩
  · intro c hc
    have := hl c hc
    refine ⟨?_, ?_, ?_⟩ <;> rintro rfl <;> revert this <;> decide

theorem remark_quoted (q : Quotable) {t : List Char} (ht : '/' ∉ t) :
    remark (q.quoted ++ t) = [] := by
  have hclose : '/' ∉ '"' :: t := by simpa using ht
  rw [Quotable.quoted, List.cons_append, List.append_assoc, List.singleton_append,
    ← List.singleton_append, (remark_append_of_no_slash (by decide) _).1,
    (remark_append_of_nil (remark_eq_nil_iff.2 q.noSlashes) (.of_head (by simp))).1]
  exact remark_of_no_slash hclose

theorem Leaf.remark_stem (l : Leaf) {t : List Char} (ht : '/' ∉ t) : remark (l.stem ++ t) = [] := by
  rcases l.stem_chars with ⟨h, rfl⟩ | hl
  · have hk := (Leaf.firstWord_of_keyword (l := .header h) rfl []).1
    obtain ⟨front, hf, he | ⟨q, he⟩⟩ := header_parts h
    · rw [Leaf.stem, he,
        (remark_append_of_no_slash ((inner_led hk hf).not_mem (by decide)) _).1]
      exact remark_of_no_slash ht
    · rw [Leaf.stem, he, led_append, List.append_assoc,
        (remark_append_of_no_slash ((inner_led hk hf).not_mem (by decide)) _).1]
      exact remark_quoted q ht
  · refine remark_of_no_slash ?_
    rw [List.mem_append, not_or]
    exact ⟨fun hm => absurd (hl _ hm) (by decide), ht⟩

end SchemaLint.Document
