import SchemaLint.Proofs.Schema.Methods
import SchemaLint.Proofs.Line.Remark

/-! The lines of a schema, whatever their white space: what each is read as, and that it is code
that stays one line. -/

namespace SchemaLint.Schema
open SchemaLint.Text SchemaLint.Line SchemaLint.Layout Chunk

def Statement.category : Statement → Category
  | field _ => .field
  | value _ => .enumValue
  | reserved _ => .reserved
  | method _ => .rpc
  | deprecated => .optionDecl

def Opener.category : Opener → Category
  | block _ _ => .block
  | method _ => .rpc

def Piece.category : Piece → Category
  | note _ => .comment
  | header h => h.category
  | statement s => s.category
  | opener o => o.category
  | close => .close

theorem Keyword.mem_blockKeywords (k : Keyword) : k.word ∈ blockKeywords := by
  cases k <;> decide

theorem readLine_of_unbraced {keyword : Keyword} {name : Name} {t : List Char}
    (h : FitAll (keyword.chunks name) t) :
    readLine t = (.block, printAll (keyword.chunks name)) := by
  obtain ⟨_, _, rfl, ⟨g, _, ⟨hgn, hg⟩, ⟨_, _, rfl, rfl, rfl⟩, rfl⟩, rfl⟩ := h
  obtain ⟨b, g, rfl⟩ := List.exists_cons_of_ne_nil hgn
  obtain ⟨hb, hg⟩ := blank_cons.1 hg
  have hs := solid_of_forall name.solid
  have hends : EndsSolid (spaceKeyword keyword.word name.text) :=
    endsSolid_spaceKeyword name.ne_nil hs.2
  have hbrace : (spaceKeyword keyword.word name.text).getLast? ≠ some '{' := by
    rw [spaceKeyword, List.getLast?_append_of_ne_nil _ (by simp), ← List.singleton_append,
      List.getLast?_append_of_ne_nil _ name.ne_nil]
    exact fun hl => name.term.not_mem (by decide) (List.mem_of_getLast? hl)
  rw [List.append_nil, List.cons_append, readLine_block keyword.mem_blockKeywords hb,
    trimStart_append hg, hs.1.trimStart, spaceOpener, spaceFinalBrace_of_ne hends hbrace,
    spaceKeyword]
  simp [Keyword.chunks, printAll, Chunk.print]

theorem readLine_of_block {keyword : Keyword} {name : Name} {t : List Char}
    (h : FitAll (Opener.block keyword name).chunks t) :
    readLine t = (.block, printAll (Opener.block keyword name).chunks) := by
  obtain ⟨_, _, ⟨_, _, rfl, ⟨g, _, ⟨hgn, hg⟩, ⟨_, _, rfl, rfl, rfl⟩, rfl⟩, rfl⟩,
    ⟨k, _, hk, ⟨_, _, rfl, rfl, rfl⟩, rfl⟩, rfl⟩ := fitAll_append.1 h
  obtain ⟨b, g, rfl⟩ := List.exists_cons_of_ne_nil hgn
  obtain ⟨hb, hg⟩ := blank_cons.1 hg
  have hs := startsSolid_of_solid (t := k ++ ['{']) name.ne_nil name.solid
  have hends : EndsSolid (spaceKeyword keyword.word name.text) :=
    endsSolid_spaceKeyword name.ne_nil (solid_of_forall name.solid).2
  have hread := readLine_block keyword.mem_blockKeywords hb
    (t := g ++ (name.text ++ (k ++ ['{'])))
  have hassoc : spaceKeyword keyword.word (name.text ++ (k ++ ['{'])) =
      (spaceKeyword keyword.word name.text ++ k) ++ ['{'] := by simp [spaceKeyword]
  rw [trimStart_append hg, hs.trimStart, spaceOpener, hassoc, spaceFinalBrace_concat,
    trimEnd_append hk, hends.trimEnd, spaceKeyword] at hread
  simp only [List.append_assoc, List.cons_append, List.append_nil] at hread ⊢
  rw [hread]
  simp [Opener.chunks, Keyword.chunks, printAll, Chunk.print]

theorem Range.startsSolid (r : Range) : r.text ≠ [] ∧ StartsSolid r.text := by
  have h : ∀ n : Number, StartsSolid n.digits := fun n => (solid_of_forall n.solid).1
  cases r with
  | one n => exact ⟨n.nonempty, h n⟩
  | span low high =>
      exact ⟨by simp [Range.text], (startsSolid_append low.nonempty).2 (h low)⟩

theorem Reserved.startsSolid (r : Reserved) (t : List Char) : StartsSolid (r.text ++ t) := by
  obtain ⟨hn, hs⟩ := r.first.startsSolid
  rw [Reserved.text, List.append_assoc]
  exact (startsSolid_append hn).2 hs

theorem readLine_of_statement {s : Statement} {t : List Char} (h : FitAll s.chunks t) :
    readLine t = (s.category, printAll s.chunks) := by
  cases s with
  | field f => exact readLine_of_field h
  | value v => exact readLine_of_value h
  | reserved r =>
      have hk : ("reserved", Category.reserved) ∈ statementKeywords := by decide
      exact readLine_keyword hk (r.startsSolid _) h
  | method s => exact readLine_of_method ending_semicolon h
  | deprecated =>
      have hk : ("option", Category.optionDecl) ∈ statementKeywords := by decide
      exact readLine_keyword hk (by decide) h

theorem readLine_of_opener {o : Opener} {t : List Char} (h : FitAll o.chunks t) :
    readLine t = (o.category, printAll o.chunks) := by
  cases o with
  | block keyword name => exact readLine_of_block h
  | method s => exact readLine_of_method ending_brace h

/-- The characters of code outside quotes, but for braces. -/
def isInner (c : Char) : Bool :=
  isTerm c || "=;()".toList.contains c

def Inner (s : List Char) : Prop := ∀ c ∈ s, isInner c

instance (s : List Char) : Decidable (Inner s) :=
  inferInstanceAs (Decidable (∀ c ∈ s, isInner c))

@[simp] theorem inner_append {s t : List Char} : Inner (s ++ t) ↔ Inner s ∧ Inner t :=
  List.forall_mem_append

theorem Inner.not_mem {s : List Char} (h : Inner s) {c : Char} (hc : isInner c = false) :
    c ∉ s := by
  intro hm
  rw [h c hm] at hc
  cases hc

theorem Term.inner {s : List Char} (h : Term s) : Inner s := by
  intro c hc
  rw [isInner, h c hc, Bool.true_or]

theorem inner_cons {chunk : Chunk} {chunks : List Chunk} :
    Inner (printAll (chunk :: chunks)) ↔ Inner chunk.print ∧ Inner (printAll chunks) :=
  inner_append

theorem Range.term (r : Range) : Term r.text := by
  cases r with
  | one n => exact n.term
  | span low high => exact term_append.2 ⟨low.term, term_append.2 ⟨by decide, high.term⟩⟩

theorem Reserved.term (r : Reserved) : Term r.text := by
  refine term_append.2 ⟨r.first.term, fun c hc => ?_⟩
  obtain ⟨range, -, hc⟩ := List.mem_flatMap.1 hc
  exact term_append.2 ⟨by decide, range.term⟩ c hc

theorem inner_assignment {front number : List Char} (hf : Term front) (hn : Term number) :
    Inner (printAll (assignment front number)) := by
  simp only [assignment, inner_cons]
  exact ⟨hf.inner, by decide, by decide, by decide, hn.inner, by decide⟩

theorem Operand.inner (o : Operand) : Inner (printAll o.chunks) := by
  simp only [Operand.chunks, inner_cons]
  exact ⟨by decide, by decide, o.term.inner, by decide⟩

theorem Signature.inner (s : Signature) : Inner (printAll s.chunks) := by
  simp only [Signature.chunks, printAll_append, inner_append, inner_cons]
  exact ⟨⟨by decide, by decide, s.name.term.inner, by decide⟩, s.request.inner, by decide,
    s.response.inner⟩

theorem Keyword.inner (keyword : Keyword) (name : Name) :
    Inner (printAll (keyword.chunks name)) := by
  simp only [Keyword.chunks, inner_cons]
  exact ⟨by cases keyword <;> decide, by decide, name.term.inner, by decide⟩

theorem Statement.inner (s : Statement) : Inner (printAll s.chunks) := by
  cases s with
  | field f => exact inner_assignment f.term f.number.term
  | value v => exact inner_assignment v.name.term v.numeral_facts.2.1
  | reserved r =>
      simp only [Statement.chunks, inner_cons]
      exact ⟨by decide, by decide, inner_append.2 ⟨r.term.inner, by decide⟩, by decide⟩
  | method s =>
      rw [Statement.chunks, printAll_append]
      exact inner_append.2 ⟨s.inner, by decide⟩
  | deprecated => decide

/-- No brace and no line feed. -/
def Inline (s : List Char) : Prop := ∀ c ∈ s, c ≠ '{' ∧ c ≠ '}' ∧ c ≠ '\n'

theorem inline_append {s t : List Char} : Inline (s ++ t) ↔ Inline s ∧ Inline t :=
  List.forall_mem_append

theorem inline_cons {chunk : Chunk} {chunks : List Chunk} :
    Inline (printAll (chunk :: chunks)) ↔ Inline chunk.print ∧ Inline (printAll chunks) :=
  inline_append

theorem Inner.inline {s : List Char} (h : Inner s) : Inline s := by
  intro c hc
  refine ⟨?_, ?_, ?_⟩ <;> rintro rfl <;> exact absurd hc (h.not_mem (by decide))

theorem Quotable.inline (q : Quotable) : Inline q.quoted := by
  intro c hc
  rw [Quotable.quoted, List.mem_cons, List.mem_append, List.mem_singleton] at hc
  rcases hc with rfl | hc | rfl
  · exact ⟨by decide, by decide, by decide⟩
  · refine ⟨?_, ?_, ?_⟩ <;> rintro rfl
    · exact q.noBrace.1 hc
    · exact q.noBrace.2 hc
    · exact q.noFeed hc
  · exact ⟨by decide, by decide, by decide⟩

theorem Header.inline (h : Header) : Inline (printAll h.chunks) := by
  have inner : ∀ {s : List Char}, Inner s → Inline s := Inner.inline
  have quoted : ∀ q : Quotable, Inline (q.quoted ++ [';']) := fun q =>
    inline_append.2 ⟨q.inline, inner (by decide)⟩
  cases h with
  | syntaxDecl q =>
      simp only [Header.chunks, inline_cons]
      exact ⟨inner (by decide), inner (by decide), inner (by decide), inner (by decide), quoted q,
        inner (by decide)⟩
  | packageDecl p =>
      simp only [Header.chunks, inline_cons]
      exact ⟨inner (by decide), inner (by decide),
        inner (inner_append.2 ⟨p.term.inner, by decide⟩), inner (by decide)⟩
  | importDecl q =>
      simp only [Header.chunks, inline_cons]
      exact ⟨inner (by decide), inner (by decide), quoted q, inner (by decide)⟩
  | publicImport q =>
      simp only [Header.chunks, inline_cons]
      exact ⟨inner (by decide), inner (by decide), inline_append.2 ⟨inner (by decide), quoted q⟩,
        inner (by decide)⟩
  | optionDecl n q =>
      simp only [Header.chunks, inline_cons]
      exact ⟨inner (by decide), inner (by decide), inline_append.2 ⟨inner n.term.inner,
        inline_append.2 ⟨inner (by decide), quoted q⟩⟩, inner (by decide)⟩

end SchemaLint.Schema
