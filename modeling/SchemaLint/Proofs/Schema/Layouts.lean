import SchemaLint.Proofs.Schema.Pieces

/-! The layouts of a schema. Lines may be indented in any way and have blank lines between them,
white space may vary where the format fixes it, the brace of a block may stand on a line of its
own, and a closing brace may follow a statement. All layouts are read as the same tokens. -/

namespace SchemaLint.Schema
open SchemaLint.Text SchemaLint.Line SchemaLint.Layout Chunk

/-- Lines that hold some pieces, one after another. -/
inductive Lays : List Piece → List (List Char) → Prop
  | done : Lays [] []
  | blank {l : List Char} {ps : List Piece} {ls : List (List Char)} :
      trim l = [] → Lays ps ls → Lays ps (l :: ls)
  | line {p : Piece} {l : List Char} {ps : List Piece} {ls : List (List Char)} :
      FitAll p.chunks (trim l) → Lays ps ls → Lays (p :: ps) (l :: ls)
  | braceBelow {keyword : Keyword} {name : Name} {l brace : List Char} {gap ls : List (List Char)}
      {ps : List Piece} :
      FitAll (keyword.chunks name) (trim l) → (∀ k ∈ gap, trim k = []) → trim brace = ['{'] →
      Lays ps ls → Lays (.opener (.block keyword name) :: ps) (l :: (gap ++ brace :: ls))
  | closed {s : Statement} {l t g : List Char} {ps : List Piece} {ls : List (List Char)} :
      FitAll s.chunks t → Blank g → trim l = t ++ (g ++ ['}']) → Lays ps ls →
      Lays (.statement s :: .close :: ps) (l :: ls)

/-- The text is a layout of the schema. -/
def IsLayout (s : Schema) (x : List Char) : Prop :=
  Lays s.pieces (Source.lines x)

def Piece.depth (d : Nat) : Piece → Nat
  | close => d - 1
  | _ => d

def Piece.after (d : Nat) : Piece → Nat
  | opener _ => d + 1
  | close => d - 1
  | _ => d

def Piece.token (d : Nat) (p : Piece) : Token :=
  ⟨p.text, p.depth d, p.category⟩

def tokensAt : Nat → List Piece → List Token
  | _, [] => []
  | d, p :: ps => p.token d :: tokensAt (p.after d) ps

theorem FitAll.startsWord {s t : List Char} {chunks : List Chunk} (hs : StartsWord s)
    (h : FitAll (.text s :: chunks) t) : StartsWord t := by
  obtain ⟨_, v, rfl, -, rfl⟩ := h
  exact hs.of_isPrefix (List.prefix_append _ _)

theorem Header.startsWord {h : Header} {t : List Char} (ht : FitAll h.chunks t) :
    StartsWord t := by
  cases h <;> exact FitAll.startsWord ⟨_, rfl, by decide⟩ ht

theorem Statement.startsWord {s : Statement} {t : List Char} (h : FitAll s.chunks t) :
    StartsWord t := by
  cases s with
  | field f =>
      obtain ⟨w, rest, hfront, hn, hw, -⟩ := f.lead
      refine FitAll.startsWord (.of_isPrefix (startsWord_of_word hn hw) ?_) h
      exact ⟨rest, hfront.symm⟩
  | value v => exact FitAll.startsWord (startsWord_of_word v.name.ne_nil v.name.word) h
  | reserved r => exact FitAll.startsWord ⟨_, rfl, by decide⟩ h
  | method s => exact FitAll.startsWord (s := "rpc".toList) ⟨_, rfl, by decide⟩ h
  | deprecated => exact FitAll.startsWord ⟨_, rfl, by decide⟩ h

theorem Keyword.startsWord {keyword : Keyword} {chunks : List Chunk} {t : List Char}
    (h : FitAll (.text keyword.word.toList :: chunks) t) : StartsWord t :=
  have hk := mem_lineKeywords_of_block keyword.mem_blockKeywords
  FitAll.startsWord (startsWord_of_lineKeyword hk) h

theorem Opener.startsWord {o : Opener} {t : List Char} (h : FitAll o.chunks t) :
    StartsWord t := by
  cases o with
  | block keyword name => exact Keyword.startsWord h
  | method s => exact FitAll.startsWord (s := "rpc".toList) ⟨_, rfl, by decide⟩ h

theorem Header.getLast? {h : Header} {t : List Char} (ht : FitAll h.chunks t) :
    t.getLast? = some ';' := by
  have concat : ∀ (s : List Char), (s ++ [';']).getLast? = some ';' := fun s =>
    List.getLast?_concat
  cases h with
  | syntaxDecl q => rw [FitAll.getLast? (by simp) rfl ht, concat]
  | packageDecl p => rw [FitAll.getLast? (by simp) rfl ht, concat]
  | importDecl q => rw [FitAll.getLast? (by simp) rfl ht, concat]
  | publicImport q => rw [FitAll.getLast? (by simp) rfl ht, ← List.append_assoc, concat]
  | optionDecl n q =>
      rw [FitAll.getLast? (by simp) rfl ht, ← List.append_assoc, ← List.append_assoc, concat]

theorem Statement.getLast? {s : Statement} {t : List Char} (h : FitAll s.chunks t) :
    t.getLast? = some ';' := by
  cases s with
  | field f => exact FitAll.getLast? (s := [';']) (by simp) rfl h
  | value v => exact FitAll.getLast? (s := [';']) (by simp) rfl h
  | reserved r => rw [FitAll.getLast? (by simp) rfl h, List.getLast?_concat]
  | method s =>
      exact FitAll.getLast? (s := [';']) (by simp) (List.getLast?_append_of_ne_nil _ (by simp)) h
  | deprecated => exact FitAll.getLast? (by simp) rfl h

theorem Opener.text_eq (o : Opener) :
    ∃ front, Inner front ∧ printAll o.chunks = front ++ " \x7b".toList := by
  cases o with
  | block keyword name => exact ⟨_, keyword.inner name, printAll_append _ _⟩
  | method s => exact ⟨_, s.inner, printAll_append _ _⟩

theorem FitAll.not_mem {chunks : List Chunk} {t : List Char} {c : Char} (h : FitAll chunks t)
    (hb : isBlank c = false) (hc : c ∉ printAll chunks) : c ∉ t := by
  intro hm
  rcases h.mem hm with hm | hm
  · rw [hb] at hm
    cases hm
  · exact hc hm

theorem isCode_note {l : List Char} (h : startsWith "//".toList (trim l)) : IsCode l := by
  obtain ⟨s, hs⟩ := startsWith_iff.1 h
  have hcomment : isComment (trim l) := by rw [isComment, h, Bool.true_or, Bool.true_or]
  rw [← hs] at hcomment
  refine ⟨?_, ?_, ?_, .inl ?_⟩ <;> rw [← hs]
  · simp
  · rfl
  · rfl
  · exact hcomment

/-- A line of a piece that does not close a block is a line of code, read as the piece. -/
theorem Piece.isCode {p : Piece} (hp : p ≠ .close) {l : List Char}
    (h : FitAll p.chunks (trim l)) :
    IsCode l ∧ readLine (trim l) = (p.category, p.text) := by
  cases p with
  | note n =>
      obtain ⟨_, _, rfl, rfl, he⟩ := h
      rw [List.append_nil] at he
      refine ⟨isCode_note (he.symm ▸ n.slashes), ?_⟩
      rw [he, readLine_slashes n.slashes]
      simp [Piece.category, Piece.text, Piece.chunks, printAll, Chunk.print]
  | header k =>
      have hb : '}' ∉ printAll k.chunks := fun hm => (k.inline _ hm).2.1 rfl
      exact ⟨isCode_of_word (Header.startsWord h) (FitAll.not_mem h (by decide) hb),
        readLine_header h⟩
  | statement s =>
      have hb := s.inner.not_mem (c := '}') (by decide)
      exact ⟨isCode_of_word (Statement.startsWord h) (FitAll.not_mem h (by decide) hb),
        readLine_of_statement h⟩
  | opener o =>
      obtain ⟨front, hfront, he⟩ := o.text_eq
      have hb : '}' ∉ printAll o.chunks := by
        rw [he, List.mem_append, not_or]
        exact ⟨hfront.not_mem (by decide), by decide⟩
      exact ⟨isCode_of_word (Opener.startsWord h) (FitAll.not_mem h (by decide) hb),
        readLine_of_opener h⟩
  | close => exact absurd rfl hp

theorem deepens_of_final_brace {t : Token} (hc : t.category ≠ .comment) (hs : '/' ∉ t.text)
    (hw : StartsWord t.text) (hl : t.text.getLast? = some '{') : t.deepens := by
  obtain ⟨c, hc', hword⟩ := hw
  have hends : EndsSolid t.text := .of_getLast? hl (by decide)
  rw [Token.deepens, code, beforeComment_of_no_slash hs, trim_of_head hc' hword hends, hl]
  simp [hc]

theorem Piece.next_token {p : Piece} (hp : p ≠ .close) (d : Nat) :
    (p.token d).next = p.after d ∧ (p.token d).wantsBrace = false := by
  have flat : ∀ {t : Token}, t.category = .comment ∨ '{' ∉ t.text → t.next = t.depth := by
    intro t ht
    have : t.deepens = false := by
      rw [Token.deepens, Bool.and_eq_false_iff]
      rcases ht with hc | hb
      · exact .inl (by simp [hc])
      · exact .inr (decide_eq_false fun hl => hb (getLast?_code_mem hl))
    rw [Token.next, this]
    rfl
  have calm : ∀ {t : Token}, t.category ≠ .block ∨ '{' ∈ t.text → t.wantsBrace = false := by
    rintro t (h | h) <;> simp [Token.wantsBrace, h]
  cases p with
  | note n => exact ⟨flat (.inl rfl), calm (.inl (by simp [Piece.token, Piece.category]))⟩
  | header h =>
      refine ⟨flat (.inr fun hm => (h.inline _ hm).1 rfl), calm (.inl ?_)⟩
      cases h <;> exact fun h => Category.noConfusion h
  | statement s =>
      refine ⟨flat (.inr (s.inner.not_mem (by decide))), calm (.inl ?_)⟩
      cases s <;> exact fun h => Category.noConfusion h
  | opener o =>
      obtain ⟨front, hfront, he⟩ := o.text_eq
      have htext : ((Piece.opener o).token d).text = front ++ " \x7b".toList := he
      have hdeep : ((Piece.opener o).token d).deepens := by
        refine deepens_of_final_brace ?_ ?_ (Opener.startsWord (fitAll_printAll o.chunks)) ?_
        · cases o <;> exact fun h => Category.noConfusion h
        · rw [htext, List.mem_append, not_or]
          exact ⟨hfront.not_mem (by decide), by decide⟩
        · rw [htext, List.getLast?_append_of_ne_nil _ (by decide)]
          rfl
      refine ⟨by rw [Token.next, hdeep]; rfl, calm (.inr ?_)⟩
      rw [htext]
      simp
  | close => exact absurd rfl hp

theorem lineToken_piece {p : Piece} (hp : p ≠ .close) {l : List Char}
    (h : FitAll p.chunks (trim l)) (d : Nat) : lineToken d l = p.token d := by
  have hdepth : p.depth d = d := by
    cases p <;> first | rfl | exact absurd rfl hp
  rw [lineToken, (p.isCode hp h).2, Piece.token, hdepth]

theorem Piece.trim_text (p : Piece) : p.text ≠ [] ∧ trim p.text = p.text := by
  have solid : ∀ {s : List Char} {m : Char}, isBlank m = false → StartsWord s →
      s.getLast? = some m → s ≠ [] ∧ trim s = s := by
    rintro s m hm ⟨c, hc, hw⟩ hl
    refine ⟨fun hn => ?_, trim_of_head hc hw (.of_getLast? hl hm)⟩
    rw [hn] at hc
    cases hc
  cases p with
  | note n =>
      have he : (Piece.note n).text = n.text := List.append_nil _
      rw [he]
      refine ⟨fun hn => ?_, n.trimmed⟩
      have := n.slashes
      rw [hn] at this
      cases this
  | header h =>
      have hfit := fitAll_printAll h.chunks
      exact solid (by decide) (Header.startsWord hfit) (Header.getLast? hfit)
  | statement s =>
      have hfit := fitAll_printAll s.chunks
      exact solid (by decide) (Statement.startsWord hfit) (Statement.getLast? hfit)
  | opener o =>
      obtain ⟨front, -, he⟩ := o.text_eq
      refine solid (m := '{') (by decide) (Opener.startsWord (fitAll_printAll o.chunks)) ?_
      rw [Piece.text, Piece.chunks, he, List.getLast?_append_of_ne_nil _ (by decide)]
      rfl
  | close => exact ⟨by decide, by decide⟩

theorem reads_line {p : Piece} {l : List Char} {ps : List Piece} {ls : List (List Char)} {d : Nat}
    (hl : FitAll p.chunks (trim l)) (h : Reads (p.after d) false ls (tokensAt (p.after d) ps)) :
    Reads d false (l :: ls) (tokensAt d (p :: ps)) := by
  by_cases hp : p = .close
  · subst hp
    obtain ⟨_, _, rfl, rfl, he⟩ := hl
    have hclose : isClosingLine (trim l) := by
      rw [he]
      rfl
    have := Reads.close hclose h
    rwa [he] at this
  · obtain ⟨hnext, hwants⟩ := p.next_token hp d
    have htoken := lineToken_piece hp hl d
    rw [tokensAt, ← htoken]
    rw [← htoken] at hnext hwants
    refine .line (p.isCode hp hl).1 (fun hw => ?_) (hnext.symm ▸ h)
    rw [hwants] at hw
    cases hw

theorem reads_braceBelow {keyword : Keyword} {name : Name} {l brace : List Char}
    {gap ls : List (List Char)} {ps : List Piece} {d : Nat}
    (hl : FitAll (keyword.chunks name) (trim l)) (hgap : ∀ k ∈ gap, trim k = [])
    (hbr : trim brace = ['{']) (h : Reads (d + 1) false ls (tokensAt (d + 1) ps)) :
    Reads d false (l :: (gap ++ brace :: ls))
      (tokensAt d (.opener (.block keyword name) :: ps)) := by
  have hinner := keyword.inner name
  have hcode : IsCode l := isCode_of_word (Keyword.startsWord hl)
    (FitAll.not_mem hl (by decide) (hinner.not_mem (by decide)))
  have htoken : lineToken d l = ⟨printAll (keyword.chunks name), d, .block⟩ := by
    rw [lineToken, readLine_of_unbraced hl]
  have hwants : (lineToken d l).wantsBrace := by
    have hslash := remark_eq_nil_iff.1 (remark_of_no_slash (hinner.not_mem (c := '/') (by decide)))
    have hbrace := hinner.not_mem (c := '{') (by decide)
    rw [htoken, Token.wantsBrace, eq_false_of_ne_true hslash]
    simp [hbrace]
  have hbraced : (lineToken d l).braced = (Piece.opener (.block keyword name)).token d := by
    rw [htoken, Piece.token, Piece.text, Piece.chunks, Opener.chunks, printAll_append]
    rfl
  have hnext := (Piece.next_token (p := .opener (.block keyword name)) (by simp) d).1
  rw [tokensAt, ← hbraced]
  rw [← hbraced] at hnext
  exact .braced hcode hwants hgap hbr (hnext.symm ▸ h)

theorem statementAndCloser?_of_fit {s : Statement} {t g : List Char} (h : FitAll s.chunks t)
    (hg : Blank g) : statementAndCloser? (t ++ (g ++ ['}'])) = some (t, ['}']) := by
  have hmem : ∀ {c : Char}, isBlank c = false → isInner c = false → c ∉ t := fun hb hc =>
    FitAll.not_mem h hb (s.inner.not_mem hc)
  exact statementAndCloser?_eq_some_iff.2 ⟨g, hg, rfl, hmem (by decide) (by decide),
    hmem (by decide) (by decide), Statement.getLast? h, rfl⟩

theorem Lays.reads {ps : List Piece} {ls : List (List Char)} (h : Lays ps ls) (d : Nat) :
    Reads d false ls (tokensAt d ps) := by
  induction h generalizing d with
  | done => exact .done
  | blank hl _ ih => exact .blank hl (ih d)
  | line hl _ ih => exact reads_line hl (ih _)
  | braceBelow hl hgap hbr _ ih => exact reads_braceBelow hl hgap hbr (ih _)
  | @closed s l t g ps ls ht hg he _ ih =>
      have hsplit := statementAndCloser?_of_fit ht hg
      rw [← he] at hsplit
      obtain ⟨c, hc, hw⟩ := Statement.startsWord ht
      have hcomment : isComment (trim l) = false := by
        refine isComment_of_word ?_ hw
        rw [he]
        exact List.mem_head?_append_of_mem_head? hc
      obtain ⟨htrim, -, -, -⟩ := isCode_of_split hcomment hsplit
      refine .split hcomment hsplit (reads_line (p := .statement s) ?_ (reads_line ?_ (ih _)))
      · rwa [htrim]
      · exact ⟨_, _, rfl, rfl, rfl⟩

end SchemaLint.Schema
