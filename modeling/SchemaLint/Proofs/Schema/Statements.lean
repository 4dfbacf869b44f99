import SchemaLint.Proofs.Layout.AssignmentSpacing
import SchemaLint.Proofs.Layout.MethodSpacing
import SchemaLint.Proofs.Schema.Print

/-! The statements of a schema, whatever their white space: each is read as what it is and put in
the spacing of the canonical print. -/

namespace SchemaLint.Schema
open SchemaLint.Text SchemaLint.Line SchemaLint.Layout

namespace Chunk

theorem fitAll_append {chunks more : List Chunk} {t : List Char} :
    FitAll (chunks ++ more) t ↔ ∃ u v, FitAll chunks u ∧ FitAll more v ∧ t = u ++ v := by
  induction chunks generalizing t with
  | nil =>
      constructor
      · exact fun h => ⟨[], t, rfl, h, rfl⟩
      · rintro ⟨u, v, rfl, h, rfl⟩
        exact h
  | cons chunk chunks ih =>
      constructor
      · rintro ⟨u, v, hu, hv, rfl⟩
        obtain ⟨w, x, hw, hx, rfl⟩ := ih.1 hv
        exact ⟨u ++ w, x, ⟨u, w, hu, hw, rfl⟩, hx, (List.append_assoc ..).symm⟩
      · rintro ⟨u, v, ⟨w, x, hw, hx, rfl⟩, hv, rfl⟩
        exact ⟨w, x ++ v, hw, ih.2 ⟨x, v, hx, hv, rfl⟩, List.append_assoc ..⟩

theorem printAll_append (chunks more : List Chunk) :
    printAll (chunks ++ more) = printAll chunks ++ printAll more :=
  List.flatMap_append

theorem fits_print (chunk : Chunk) : chunk.Fits chunk.print := by
  cases chunk with
  | text s => rfl
  | space => exact ⟨by decide, by decide⟩
  | loose => exact show Blank [' '] by decide
  | tight => exact .nil

theorem fitAll_printAll (chunks : List Chunk) : FitAll chunks (printAll chunks) := by
  induction chunks with
  | nil => rfl
  | cons chunk chunks ih => exact ⟨_, _, chunk.fits_print, ih, List.flatMap_cons⟩

theorem FitAll.mem {chunks : List Chunk} {t : List Char} (h : FitAll chunks t) {c : Char}
    (hc : c ∈ t) : isBlank c ∨ c ∈ printAll chunks := by
  induction chunks generalizing t with
  | nil =>
      rw [show t = [] from h] at hc
      cases hc
  | cons chunk chunks ih =>
      obtain ⟨u, v, hu, hv, rfl⟩ := h
      rw [printAll, List.flatMap_cons, List.mem_append]
      rcases List.mem_append.1 hc with hc | hc
      · cases chunk with
        | text s =>
            rw [show u = s from hu] at hc
            exact .inr (.inl hc)
        | space => exact .inl (hu.2 c hc)
        | loose => exact .inl (hu c hc)
        | tight => exact .inl (hu c hc)
      · exact (ih hv hc).imp_right .inr

theorem FitAll.getLast? {chunks : List Chunk} {s t : List Char} (hs : s ≠ [])
    (hl : chunks.getLast? = some (.text s)) (h : FitAll chunks t) : t.getLast? = s.getLast? := by
  obtain ⟨init, rfl⟩ := List.getLast?_eq_some_iff.1 hl
  obtain ⟨u, v, -, ⟨_, _, rfl, rfl, rfl⟩, rfl⟩ := fitAll_append.1 h
  rw [List.append_nil, List.getLast?_append_of_ne_nil _ hs]

end Chunk

open Chunk

theorem readLine_keyword {keyword : String} {category : Category} {rest t : List Char}
    (hk : (keyword, category) ∈ statementKeywords) (hs : StartsSolid rest)
    (h : FitAll [.text keyword.toList, .space, .text rest] t) :
    readLine t = (category, printAll [.text keyword.toList, .space, .text rest]) := by
  obtain ⟨_, _, rfl, ⟨g, _, ⟨hgn, hg⟩, ⟨_, _, rfl, rfl, rfl⟩, rfl⟩, rfl⟩ := h
  obtain ⟨b, g, rfl⟩ := List.exists_cons_of_ne_nil hgn
  obtain ⟨hb, hg⟩ := blank_cons.1 hg
  rw [List.append_nil, List.cons_append, readLine_statement hk hb, trimStart_append hg,
    hs.trimStart, spaceKeyword]
  simp [printAll, Chunk.print]

theorem startsSolid_of_solid {s t : List Char} (hn : s ≠ []) (h : ∀ c ∈ s, isBlank c = false) :
    StartsSolid (s ++ t) :=
  (startsSolid_append hn).2 (solid_of_forall h).1

theorem readLine_header {h : Header} {t : List Char} (ht : FitAll h.chunks t) :
    readLine t = (h.category, printAll h.chunks) := by
  cases h with
  | syntaxDecl q =>
      obtain ⟨_, _, rfl, ⟨g, _, hg, ⟨_, _, rfl, ⟨k, _, hk, ⟨_, _, rfl, rfl, rfl⟩, rfl⟩, rfl⟩, rfl⟩,
        rfl⟩ := ht
      have hs : StartsSolid (q.quoted ++ [';']) := startsSolid_cons.2 (by decide)
      rw [List.append_nil, List.singleton_append, readLine_syntaxDecl hg hk hs]
      simp [Header.category, Header.chunks, printAll, Chunk.print]
  | packageDecl p =>
      have hk : ("package", Category.packageDecl) ∈ statementKeywords := by decide
      exact readLine_keyword hk (startsSolid_of_solid p.ne_nil p.solid) ht
  | importDecl q =>
      have hk : ("import", Category.importDecl) ∈ statementKeywords := by decide
      exact readLine_keyword hk (startsSolid_cons.2 (by decide)) ht
  | publicImport q =>
      have hk : ("import", Category.importDecl) ∈ statementKeywords := by decide
      exact readLine_keyword hk (startsSolid_cons.2 (by decide)) ht
  | optionDecl n q =>
      have hk : ("option", Category.optionDecl) ∈ statementKeywords := by decide
      exact readLine_keyword hk (startsSolid_of_solid n.ne_nil n.solid) ht

theorem tightenFirstSemicolon_blank_append {g : List Char} (hg : Blank g) :
    tightenFirstSemicolon (g ++ [';']) = [';'] := by
  cases g with
  | nil => rfl
  | cons c g =>
      obtain ⟨hc, hg⟩ := blank_cons.1 hg
      have htrim : trimStart (g ++ [';']) = [';'] := by
        rw [trimStart_append hg]
        rfl
      rw [List.cons_append, tightenFirstSemicolon_cons, hc, htrim]
      rfl

theorem FitAll.assignment {front number t : List Char}
    (h : FitAll (assignment front number) t) :
    ∃ g k l, Blank g ∧ Blank k ∧ Blank l ∧
      t = front ++ (g ++ '=' :: (k ++ (number ++ (l ++ [';'])))) := by
  obtain ⟨_, _, rfl, ⟨g, _, hg, ⟨_, _, rfl, ⟨k, _, hk, ⟨_, _, rfl, ⟨l, _, hl, ⟨_, _, rfl, rfl, rfl⟩,
    rfl⟩, rfl⟩, rfl⟩, rfl⟩, rfl⟩, rfl⟩ := h
  exact ⟨g, k, l, hg, hk, hl, rfl⟩

theorem spaceAssignment_fit {front number t : List Char} (hfront : Term front)
    (hends : EndsSolid front) (hn : number ≠ []) (hnumber : Term number)
    (hsolid : StartsSolid number ∧ EndsSolid number) (h : FitAll (assignment front number) t) :
    spaceAssignment t = printAll (assignment front number) := by
  obtain ⟨g, k, l, hg, hk, hl, rfl⟩ := FitAll.assignment h
  rw [spaceAssignment_append (hfront.not_mem (by decide)) (hfront.not_mem (by decide)) hends hg hk
    hsolid.1 hn hsolid.2 (hnumber.not_mem (by decide)), tightenFirstSemicolon_blank_append hl]
  rfl

theorem Path.splitOn (p : Path) :
    p.text.splitOn '.' = p.first.text :: p.rest.map Part.text := by
  have hdot : ∀ {w : List Char}, (∀ c ∈ w, isPlain c) → '.' ∉ w := fun h hm =>
    absurd (h _ hm) (by decide)
  have go : ∀ (rest : List Part) {w : List Char}, '.' ∉ w →
      (w ++ rest.flatMap fun part => '.' :: part.text).splitOn '.' = w :: rest.map Part.text := by
    intro rest
    induction rest with
    | nil =>
        intro w hw
        rw [List.flatMap_nil, List.append_nil, List.splitOn_eq_singleton hw]
        rfl
    | cons part rest ih =>
        intro w hw
        rw [List.flatMap_cons, List.cons_append, List.splitOn_append_cons_self_of_not_mem hw,
          ih (hdot (isIdentifier_iff.1 part.identifier).2)]
        rfl
  exact go p.rest (hdot p.first.plain)

theorem FieldType.isType (type : FieldType) : IsType type.text := by
  cases type with
  | path p =>
      refine .path (fun c hc => ?_) ?_
      · rcases p.mem_text hc with h | rfl
        · rw [isWord_of_isPlain h, Bool.true_or]
        · rfl
      · rw [FieldType.text, p.splitOn, List.all_eq_true]
        intro w hw
        rw [Bool.not_eq_true', List.isEmpty_eq_false_iff]
        rcases List.mem_cons.1 hw with rfl | hw
        · exact p.first.ne_nil
        · obtain ⟨part, -, rfl⟩ := List.mem_map.1 hw
          exact ne_nil_of_isIdentifier part.identifier
  | map key value =>
      have hpath : ∀ p : Path, '>' ∉ p.text := by
        intro p hm
        rcases p.mem_text hm with h | h <;> revert h <;> decide
      have hinner : '>' ∉ key.text ++ (", ".toList ++ value.text) := by
        simp only [List.mem_append, not_or]
        exact ⟨hpath key, by decide, hpath value⟩
      have := IsType.map (by simp) hinner
      rw [FieldType.text]
      simpa only [List.append_assoc] using this

theorem FieldType.term (type : FieldType) : Term type.text := by
  cases type with
  | path p => exact p.term
  | map key value =>
      simp only [FieldType.text, term_append, key.term, value.term, true_and]
      decide

theorem Label.term (l : Label) : Term l.text := by
  cases l <;> decide

theorem Field.term (f : Field) : Term f.front := by
  have hlabel : Term (f.label.elim [] (·.text ++ [' '])) := by
    cases f.label with
    | none => exact term_nil
    | some l => exact term_append.2 ⟨l.term, by decide⟩
  have hspace : isTerm ' ' := by decide
  simp only [Field.front, term_append, term_cons, hlabel, f.type.term, f.name.term, hspace,
    and_self]

/-- A type starts with a word that is no keyword, and what follows it and a space starts with
none. -/
theorem FieldType.lead (type : FieldType) (t : List Char) :
    ∃ w rest, type.text ++ ' ' :: t = w ++ rest ∧ w ≠ [] ∧ (∀ c ∈ w, isWord c) ∧ rest ≠ [] ∧
      (∀ c ∈ rest.head?, isWord c = false) ∧ ∀ k ∈ keywords, k.toList ≠ w := by
  cases type with
  | path p =>
      refine ⟨p.first.text, (p.rest.flatMap fun part => '.' :: part.text) ++ ' ' :: t, ?_,
        p.first.ne_nil, p.first.word, by simp, ?_, p.first.noKeyword⟩
      · simp [FieldType.text, Path.text]
      · intro c hc
        cases hr : p.rest with
        | nil =>
            rw [hr] at hc
            cases hc
            decide
        | cons part rest =>
            rw [hr] at hc
            cases hc
            decide
  | map key value =>
      refine ⟨"map".toList, '<' :: (key.text ++ (", ".toList ++ (value.text ++ '>' :: ' ' :: t))),
        ?_, by decide, by decide, by simp, ?_, by decide⟩
      · simp [FieldType.text]
      · intro c hc
        cases hc
        decide

/-- A field starts with a word that is no keyword but perhaps a label. -/
theorem Field.lead (f : Field) :
    ∃ w rest, f.front = w ++ rest ∧ w ≠ [] ∧ (∀ c ∈ w, isWord c) ∧ rest ≠ [] ∧
      (∀ c ∈ rest.head?, isWord c = false) ∧
      ∀ k ∈ keywords, k ∉ fieldLabels → k.toList ≠ w := by
  cases hl : f.label with
  | some l =>
      refine ⟨l.text, ' ' :: (f.type.text ++ ' ' :: f.name.text), ?_, ?_, ?_, by simp, ?_, ?_⟩
      · simp [Field.front, hl]
      · cases l <;> decide
      · cases l <;> decide
      · intro c hc
        cases hc
        decide
      · cases l <;> decide
  | none =>
      have hfront : f.front = f.type.text ++ ' ' :: f.name.text := by simp [Field.front, hl]
      obtain ⟨w, rest, he, hn, hw, hr, hrest, hk⟩ := f.type.lead f.name.text
      exact ⟨w, rest, hfront.trans he, hn, hw, hr, hrest, fun k hm _ => hk k hm⟩

theorem Field.endsSolid (f : Field) : EndsSolid f.front := by
  rw [Field.front, endsSolid_append (by simp), endsSolid_append (by simp), ← List.singleton_append,
    endsSolid_append f.name.ne_nil]
  exact (solid_of_forall f.name.solid).2

theorem readLine_of_field {f : Field} {t : List Char}
    (h : FitAll (assignment f.front f.number.digits) t) :
    readLine t = (.field, printAll (assignment f.front f.number.digits)) := by
  obtain ⟨w, rest, hfront, -, hw, hn, hrest, hk⟩ := f.lead
  have hline : ∀ k ∈ lineKeywords, k ∈ keywords ∧ k ∉ fieldLabels := by decide
  obtain ⟨c, z, hdigits⟩ := List.exists_cons_of_ne_nil f.number.nonempty
  have hc : Text.isDigit c := isDigit_of_decimal (f.number.decimal c (by simp [hdigits]))
  rw [← spaceAssignment_fit f.term f.endsSolid f.number.nonempty f.number.term
    (solid_of_forall f.number.solid) h]
  obtain ⟨g, k, l, hg, hkb, -, rfl⟩ := FitAll.assignment h
  have hkeyword :
      Keywordless (f.front ++ (g ++ '=' :: (k ++ (f.number.digits ++ (l ++ [';']))))) := by
    rw [hfront, List.append_assoc]
    refine keywordless_of_ne hw (fun c hc => hrest c ?_) fun k hm =>
      hk k (hline k hm).1 (hline k hm).2
    rwa [List.head?_append_of_ne_nil _ hn] at hc
  apply readLine_field hkeyword.noBlock hkeyword.noStatement hkeyword.noRpc
  refine fieldName?_isSome_iff.2 ⟨f.label.elim [] (·.text ++ [' ']), f.type.text, [' '],
    f.name.text, g ++ '=' :: (k ++ (f.number.digits ++ (l ++ [';']))),
    ⟨?_, f.type.isType, by simp, by decide, f.name.ne_nil, f.name.word, ?_⟩, ?_⟩
  · cases f.label with
    | none => exact .inl rfl
    | some l =>
        have hl : ∃ label ∈ fieldLabels, l.text = label.toList := by cases l <;> decide
        obtain ⟨label, hm, he⟩ := hl
        exact .inr ⟨label, hm, [' '], by simp, by decide, by rw [← he]; rfl⟩
  · exact ⟨g, k, c, z ++ (l ++ [';']), hg, hkb, hc, by rw [hdigits]; rfl⟩
  · simp [Field.front]

theorem Value.numeral_facts (v : Value) : v.numeral ≠ [] ∧ Term v.numeral ∧
    (∀ c ∈ v.numeral, isBlank c = false) ∧
    ∃ num z, StartsNumber num ∧ v.numeral = num ++ z := by
  obtain ⟨c, z, hdigits⟩ := List.exists_cons_of_ne_nil v.number.nonempty
  have hc : Text.isDigit c := isDigit_of_decimal (v.number.decimal c (by simp [hdigits]))
  have hdash : isTerm '-' := by decide
  cases hv : v.negative with
  | false =>
      simp only [Value.numeral, hv, Bool.false_eq_true, if_false]
      exact ⟨v.number.nonempty, v.number.term, v.number.solid, [c], z, ⟨c, hc, .inl rfl⟩, hdigits⟩
  | true =>
      simp only [Value.numeral, hv, if_true]
      exact ⟨by simp, term_cons.2 ⟨hdash, v.number.term⟩,
        List.forall_mem_cons.2 ⟨by decide, v.number.solid⟩, ['-', c], z, ⟨c, hc, .inr rfl⟩,
        by rw [hdigits]; rfl⟩

theorem readLine_of_value {v : Value} {t : List Char}
    (h : FitAll (assignment v.name.text v.numeral) t) :
    readLine t = (.enumValue, printAll (assignment v.name.text v.numeral)) := by
  obtain ⟨hn, hterm, hsolid, num, z, hnum, hnumeral⟩ := v.numeral_facts
  rw [← spaceAssignment_fit v.name.term (solid_of_forall v.name.solid).2 hn hterm
    (solid_of_forall hsolid) h]
  obtain ⟨g, k, l, hg, hk, -, rfl⟩ := FitAll.assignment h
  have hstop : ∀ c ∈ (g ++ '=' :: (k ++ (v.numeral ++ (l ++ [';'])))).head?, isWord c = false :=
    not_word_of_blank_cons hg (by decide) _
  have hkeyword := keywordless_of_ne v.name.word hstop v.name.ne_lineKeyword
  refine readLine_enumValue hkeyword.noBlock (asSyntax?_of_ne v.name.word hstop ?_)
    hkeyword.noStatement hkeyword.noRpc (fieldName?_of_equals v.name.ne_nil v.name.word hg)
    (assignment?_isSome_iff.2 ⟨v.name.text, g, k, num, z ++ (l ++ [';']), v.name.ne_nil,
      v.name.word, hg, hk, hnum, by rw [hnumeral, List.append_assoc]⟩)
  exact v.name.noKeyword "syntax" (by decide)

end SchemaLint.Schema
