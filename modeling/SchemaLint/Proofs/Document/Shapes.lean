import SchemaLint.Proofs.Document.Words
import SchemaLint.Structure.Scan

/-! The shapes of the lines of a well-formed source: each has the shape that its kind asks for, and
a line without its semicolon, its number or its brace has lost just that. -/

namespace SchemaLint.Document
open SchemaLint.Text SchemaLint.Schema
open SchemaLint.Line hiding Opener
open SchemaLint.Layout (startsSolid_type fieldName?_isSome_iff)

theorem afterBlanks?_space {s : List Char} (h : StartsSolid s) :
    afterBlanks? (' ' :: s) = some s :=
  afterBlanks?_eq_some_iff.2 ⟨[' '], by simp, by decide, h, rfl⟩

theorem afterKeyword?_led (keyword : String) {s : List Char} (h : StartsSolid s) :
    afterKeyword? [keyword] (led keyword s) = some s :=
  afterKeyword?_eq_some_iff.2 ⟨[' '], by simp, by decide, h, rfl⟩

theorem Number.digits?_append (n : Number) {t : List Char}
    (ht : ∀ c ∈ t.head?, Text.isDigit c = false) : digits? (n.digits ++ t) = some (n.digits, t) :=
  Text.digits?_append n.nonempty (fun c hc => isDigit_of_decimal (n.decimal c hc)) ht

theorem Number.trimStart_append (n : Number) (t : List Char) :
    trimStart (n.digits ++ t) = n.digits ++ t :=
  (startsSolid_of_solid n.nonempty n.solid).trimStart

theorem afterNumber?_append (n : Number) {t : List Char}
    (ht : ∀ c ∈ t.head?, Text.isDigit c = false) :
    afterNumber? ('=' :: ' ' :: (n.digits ++ t)) = some (trimStart t) := by
  have htrim : trimStart (' ' :: (n.digits ++ t)) = n.digits ++ t :=
    (trimStart_append (g := [' ']) (by decide)).trans (Number.trimStart_append n t)
  rw [afterNumber?, htrim, Number.digits?_append n ht]
  rfl

/-- Some end of an assignment is the number from its equals sign on. -/
theorem someEnd_assigned {p : List Char → Bool} {front number t : List Char}
    (h : p ('=' :: ' ' :: (number ++ t))) : someEnd p (assigned front number ++ t) := by
  rw [someEnd_iff]
  refine ⟨_, ⟨front ++ [' '], ?_⟩, h⟩
  simp [assigned]

theorem hasTerminatedNumber_assigned (front : List Char) (n : Number) :
    hasTerminatedNumber (assigned front n.digits ++ [';']) := by
  apply someEnd_assigned
  rw [afterNumber?_append n fun c hc => by cases hc; decide]
  decide

theorem hasUnterminatedNumber_assigned (front : List Char) (n : Number) :
    hasUnterminatedNumber (assigned front n.digits) := by
  have h := afterNumber?_append n (t := []) (by simp)
  have : hasUnterminatedNumber (assigned front n.digits ++ []) := by
    apply someEnd_assigned
    rw [h]
    rfl
  rwa [List.append_nil] at this

theorem mem_of_afterNumber? {s rest : List Char} (h : afterNumber? s = some rest) :
    '=' ∈ s ∧ rest <:+ s := by
  unfold afterNumber? at h
  split at h
  case h_1 t =>
      obtain ⟨⟨n, u⟩, hd, rfl⟩ := Option.map_eq_some_iff.1 h
      obtain ⟨g, -, hg⟩ := exists_trimStart t
      obtain ⟨k, -, hk⟩ := exists_trimStart u
      refine ⟨List.mem_cons_self .., '=' :: (g ++ (n ++ k)), ?_⟩
      rw [hg, run?_append hd]
      simp [← hk]
  case h_2 => cases h

/-- A number that ends as it should has its equals sign and its semicolon or options. -/
theorem mem_of_hasTerminatedNumber {s : List Char} (h : hasTerminatedNumber s) :
    '=' ∈ s ∧ (';' ∈ s ∨ '[' ∈ s) := by
  obtain ⟨t, ht, h⟩ := someEnd_iff.1 h
  cases hr : afterNumber? t with
  | none => simp [hr] at h
  | some rest =>
      obtain ⟨he, hs⟩ := mem_of_afterNumber? hr
      rw [hr, Option.any_some, endsStatement] at h
      refine ⟨ht.subset he, ?_⟩
      obtain ⟨c, hc, hm⟩ := (Option.any_eq_true _ _).1 h
      have hmem := ht.subset (hs.subset (List.mem_of_mem_head? hc))
      rw [Bool.or_eq_true, beq_iff_eq, beq_iff_eq] at hm
      rcases hm with rfl | rfl
      · exact .inl hmem
      · exact .inr hmem

theorem mem_of_hasUnterminatedNumber {s : List Char} (h : hasUnterminatedNumber s) : '=' ∈ s := by
  obtain ⟨t, ht, h⟩ := someEnd_iff.1 h
  exact ht.subset (mem_of_afterNumber? (of_decide_eq_true h)).1

theorem typedName?_append {type name t : List Char} (htype : IsType type) (hn : name ≠ [])
    (hw : ∀ c ∈ name, isWord c) (ht : ∀ c ∈ t.head?, isWord c = false) :
    typedName? (type ++ ' ' :: (name ++ t)) = some (name, t) := by
  have hsolid : StartsSolid (name ++ t) :=
    startsSolid_of_solid hn fun c hc => isBlank_of_isWord (hw c hc)
  have hends : EndsType (' ' :: (name ++ t)) :=
    endsType_of_blank (g := [' ']) (by simp) (by decide) _
  rw [typedName?, afterType?_append htype hends, Option.bind_some, afterBlanks?_space hsolid,
    Option.bind_some, word?_eq_some_iff.2 ⟨hn, hw, ht, rfl⟩]

theorem afterLabel?_append (l : Label) {t : List Char} (ht : StartsSolid t) :
    afterLabel? (l.text ++ ' ' :: t) = some t := by
  have hl : ∃ label ∈ fieldLabels, l.text = label.toList := by cases l <;> decide
  obtain ⟨label, hm, he⟩ := hl
  exact afterLabel?_eq_some_iff.2 ⟨label, hm, [' '], by simp, by decide, ht, by rw [he]; rfl⟩

theorem isFieldShaped_front (f : Field) {t : List Char}
    (ht : ∀ c ∈ t.head?, isWord c = false) : isFieldShaped (f.front ++ t) := by
  have htyped := typedName?_append f.type.isType f.name.ne_nil f.name.word ht
  rw [isFieldShaped, Bool.or_eq_true]
  cases hl : f.label with
  | none =>
      refine .inr ?_
      have he : f.front ++ t = f.type.text ++ ' ' :: (f.name.text ++ t) := by
        simp [Field.front, hl]
      rw [he, htyped]
      rfl
  | some l =>
      refine .inl ?_
      have he : f.front ++ t = l.text ++ ' ' :: (f.type.text ++ ' ' :: (f.name.text ++ t)) := by
        simp [Field.front, hl]
      rw [he, afterLabel?_append l (startsSolid_type f.type.isType _), Option.bind_some, htyped]
      rfl

theorem isField_front (f : Field) {t : List Char} (ht : ∀ c ∈ t.head?, isWord c = false) :
    isField (f.front ++ t) := by
  obtain ⟨hn, hk⟩ := firstWord_field f t
  have hclose : isCloser (f.front ++ t) = false := by
    refine Bool.eq_false_iff.2 fun h => hn ?_
    rw [isCloser, Bool.or_eq_true, decide_eq_true_eq, decide_eq_true_eq] at h
    rcases h with h | h <;> rw [h] <;> rfl
  have hnested : isNestedDefinition (f.front ++ t) = false := by
    have hsub : ∀ k ∈ ["message", "enum", "oneof", "extend", "reserved", "option", "extensions"],
        k ∈ keywords ∧ k ∉ fieldLabels := by decide
    refine List.any_eq_false.2 fun k hm => ?_
    rw [decide_eq_true_eq]
    exact hk k (hsub k hm).1 (hsub k hm).2
  rw [isField, hclose, hnested, isFieldShaped_front f ht]
  rfl

theorem Value.afterNumeral (v : Value) {t : List Char}
    (ht : ∀ c ∈ t.head?, Text.isDigit c = false) :
    assignment? (assigned v.name.text v.numeral ++ t) =
      some (⟨v.name.text, v.negative, v.number.digits⟩, t) := by
  have hd : ∀ c ∈ v.number.digits, Text.isDigit c :=
    fun c hc => isDigit_of_decimal (v.number.decimal c hc)
  have htext : assigned v.name.text v.numeral ++ t =
      v.name.text ++ ([' '] ++ '=' :: ([' '] ++ (v.numeral ++ t))) := by simp [assigned]
  rw [htext]
  exact assignment?_spelled v.negative v.name.ne_nil v.name.word (by decide) (by decide)
    v.number.nonempty hd ht

theorem assignment?_of_unnumbered (n : Name) {g : List Char} (hg : Blank g) :
    assignment? (n.text ++ (g ++ [';'])) = none := by
  have hword : word? (n.text ++ (g ++ [';'])) = some (n.text, g ++ [';']) :=
    word?_eq_some_iff.2 ⟨n.ne_nil, n.word, not_word_of_blank_cons hg (by decide) [], rfl⟩
  have hequals : afterEquals? (g ++ [';']) = none := by
    rw [afterEquals?, trimStart_append hg]
    rfl
  rw [assignment?, hword, Option.bind_some]
  dsimp only
  rw [hequals]
  rfl

theorem assignment?_of_no_equals {s : List Char} (h : '=' ∉ s) : assignment? s = none := by
  refine Option.not_isSome_iff_eq_none.1 fun hs => h ?_
  obtain ⟨name, g, k, number, z, -, -, -, -, -, rfl⟩ := assignment?_isSome_iff.1 hs
  simp

theorem isEnumValue_name (n : Name) {t : List Char} (ht : ∀ c ∈ t.head?, isWord c = false) :
    isEnumValue (n.text ++ t) := by
  have hfirst := firstWord_name n ht
  obtain ⟨c, z, hz⟩ := List.exists_cons_of_ne_nil n.ne_nil
  have hc : isWord c := n.word c (by simp [hz])
  have hclose : isCloser (n.text ++ t) = false := by
    refine Bool.eq_false_iff.2 fun h => n.ne_nil ?_
    rw [isCloser, Bool.or_eq_true, decide_eq_true_eq, decide_eq_true_eq] at h
    rw [← hfirst]
    rcases h with h | h <;> rw [h] <;> rfl
  have hoption : startsWith "option ".toList (n.text ++ t) = false :=
    startsWith_spaced_eq_false "option".toList (by decide)
      (by rw [hfirst]; exact n.noKeyword "option" (by decide))
  have hreserved : startsWith "reserved ".toList (n.text ++ t) = false :=
    startsWith_spaced_eq_false "reserved".toList (by decide)
      (by rw [hfirst]; exact n.noKeyword "reserved" (by decide))
  rw [isEnumValue, hclose, hoption, hreserved, hz, List.cons_append, List.head?_cons,
    Option.any_some, hc]
  rfl

theorem Operand.afterParens? (o : Operand) (t : List Char) :
    afterParens? ('(' :: (o.text ++ ')' :: t)) = some t := by
  have hclose : ')' ∉ o.text := o.term.not_mem (by decide)
  rw [Line.afterParens?, until?_eq_some_iff.2 ⟨hclose, rfl⟩]
  rfl

theorem isRpc_signature (s : Signature) (t : List Char) :
    isRpc (s.text ++ t) = (trimStart t).head?.any fun c => c == ';' || c == '{' := by
  let returns := led "returns" ('(' :: (s.response.text ++ ')' :: t))
  let operands := '(' :: (s.request.text ++ ')' :: ' ' :: returns)
  have htext : s.text ++ t = led "rpc" (s.name.text ++ operands) := by
    simp [operands, returns, Signature.text, led]
  have hparen : StartsSolid operands := startsSolid_cons.2 (by decide)
  have hname : word? (s.name.text ++ operands) = some (s.name.text, operands) :=
    word?_eq_some_iff.2 ⟨s.name.ne_nil, s.name.word, fun c hc => by cases hc; decide, rfl⟩
  have hreturns : StartsSolid returns := startsSolid_cons.2 (by decide)
  have hresponse : StartsSolid ('(' :: (s.response.text ++ ')' :: t)) :=
    startsSolid_cons.2 (by decide)
  rw [isRpc, htext, afterKeyword?_led "rpc" (startsSolid_of_solid s.name.ne_nil s.name.solid)]
  simp only [Option.bind_some, hname, hparen.trimStart, operands, Operand.afterParens?,
    afterBlanks?_space hreturns]
  simp only [returns, afterKeyword?_led "returns" hresponse, Option.bind_some,
    Operand.afterParens?, Option.any_some]

theorem syntaxValue?_of_syntaxDecl (q : Quotable) :
    syntaxValue? (Leaf.header (.syntaxDecl q)).text = some q.text := by
  have htext : (Leaf.header (.syntaxDecl q)).text =
      "syntax".toList ++ ' ' :: '=' :: ' ' :: '"' :: (q.text ++ ['"', ';']) := by
    simp [Leaf.text, Leaf.stem, headerKeyword, headerRest, led, Quotable.quoted]
  have hequals : afterEquals? (' ' :: '=' :: ' ' :: '"' :: (q.text ++ ['"', ';'])) =
      some ('"' :: (q.text ++ ['"', ';'])) :=
    afterEquals?_eq_some_iff.2 ⟨[' '], [' '], by decide, by decide,
      startsSolid_cons.2 (by decide), rfl⟩
  have hquoted : until? '"' (q.text ++ ['"', ';']) = some (q.text, [';']) :=
    until?_eq_some_iff.2 ⟨q.noQuote, rfl⟩
  rw [syntaxValue?, htext, after?_append, Option.bind_some, hequals]
  exact (congrArg (Option.bind · _) hquoted).trans rfl

theorem opener?_led (keyword : Keyword) (n : Name) {t : List Char}
    (ht : ∀ c ∈ t.head?, isWord c = false) :
    opener? (led keyword.word n.text ++ t) = some ⟨keyword.kind, n.text, t⟩ := by
  have hread : ∀ s, opener? (led keyword.word s) =
      some ⟨keyword.kind, (trimStart s).takeWhile isWord, (trimStart s).dropWhile isWord⟩ := by
    intro s
    cases keyword <;> rfl
  have hword : word? (n.text ++ t) = some (n.text, t) :=
    word?_eq_some_iff.2 ⟨n.ne_nil, n.word, ht, rfl⟩
  obtain ⟨-, htake, hdrop⟩ := run?_eq_some_iff.1 hword
  rw [← led_append, hread, (startsSolid_of_solid n.ne_nil n.solid).trimStart, htake, hdrop]

theorem declaredName?_led (keyword : String) (n : Name) {t : List Char}
    (ht : ∀ c ∈ t.head?, isWord c = false) :
    declaredName? keyword (led keyword n.text ++ t) = some n.text := by
  rw [← led_append, declaredName?,
    afterKeyword?_led keyword (startsSolid_of_solid n.ne_nil n.solid), Option.bind_some,
    word?_eq_some_iff.2 ⟨n.ne_nil, n.word, ht, rfl⟩]
  rfl

theorem afterLabel?_of_type (type : FieldType) (t : List Char) :
    afterLabel? (type.text ++ ' ' :: t) = none := by
  obtain ⟨w, rest, he, -, hw, -, hrest, hk⟩ := type.lead t
  have hlabels : ∀ label ∈ fieldLabels, label ∈ keywords := by decide
  apply afterKeyword?_eq_none word_of_fieldLabel
  intro label hm
  rw [he, firstWord_append hw hrest]
  exact hk label (hlabels label hm)

theorem fieldName?_field (f : Field) : fieldName? (Leaf.field f).text = some f.name.text := by
  obtain ⟨c, z, hdigits⟩ := List.exists_cons_of_ne_nil f.number.nonempty
  have hc : Text.isDigit c := isDigit_of_decimal (f.number.decimal c (by simp [hdigits]))
  have hnumber : AssignsNumber (assigned [] f.number.digits ++ [';']) :=
    ⟨[' '], [' '], c, z ++ [';'], by decide, by decide, hc, by rw [hdigits]; rfl⟩
  have htext : (Leaf.field f).text = f.front ++ (assigned [] f.number.digits ++ [';']) := by
    simp [Leaf.text, Leaf.stem, assigned]
  have hnumbered : numberedName? (f.type.text ++ ' ' :: (f.name.text ++
      (assigned [] f.number.digits ++ [';']))) = some f.name.text :=
    numberedName?_eq_some_iff.2 ⟨f.type.text, [' '], assigned [] f.number.digits ++ [';'],
      f.type.isType, by simp, by decide, f.name.ne_nil, f.name.word, hnumber, rfl⟩
  rw [fieldName?, htext]
  cases hl : f.label with
  | none =>
      have hfront : f.front = f.type.text ++ ' ' :: f.name.text := by simp [Field.front, hl]
      rw [hfront, List.append_assoc, List.cons_append, afterLabel?_of_type, hnumbered]
      rfl
  | some l =>
      have hfront : f.front = l.text ++ ' ' :: (f.type.text ++ ' ' :: f.name.text) := by
        simp [Field.front, hl]
      rw [hfront, List.append_assoc, List.cons_append, List.append_assoc, List.cons_append,
        afterLabel?_append l (startsSolid_type f.type.isType _), Option.bind_some, hnumbered]
      rfl

theorem fieldName?_of_no_equals {s : List Char} (h : '=' ∉ s) : fieldName? s = none := by
  refine Option.not_isSome_iff_eq_none.1 fun hs => h ?_
  obtain ⟨pre, type, gap, name, rest, hnumbered, rfl⟩ := fieldName?_isSome_iff.1 hs
  obtain ⟨g, k, c, z, -, -, -, rfl⟩ := hnumbered.assigns
  simp

/-- What follows the keyword of a statement is no field name unless a number is assigned to it. -/
theorem fieldName?_led {k : String} (hk : k ∈ keywords) (hl : k ∉ fieldLabels) {rest : List Char}
    (hrest : StartsSolid rest) (h : ∀ name r, word? rest = some (name, r) →
      (afterEquals? r).bind digits? = none) : fieldName? (led k rest) = none := by
  obtain ⟨hn, hw⟩ := keywords_spec k hk
  have hfirst : firstWord (led k rest) = k.toList := firstWord_keyword hw rest
  have hlabel : afterLabel? (led k rest) = none := by
    apply afterKeyword?_eq_none word_of_fieldLabel
    intro label hm he
    rw [hfirst] at he
    exact hl (String.toList_injective he ▸ hm)
  have hends : EndsType (' ' :: rest) := endsType_of_blank (g := [' ']) (by simp) (by decide) rest
  have htyped : typedName? (led k rest) = word? rest := by
    rw [typedName?, led, afterType?_append (isType_word hn hw) hends, Option.bind_some,
      afterBlanks?_space hrest, Option.bind_some]
  have hnumbered : numberedName? (led k rest) = none := by
    rw [numberedName?, htyped]
    cases hword : word? rest with
    | none => rfl
    | some found =>
        obtain ⟨name, r⟩ := found
        rw [Option.bind_some]
        dsimp only
        rw [h name r hword]
        rfl
  rw [fieldName?, hlabel, hnumbered]
  rfl

/-- A header statement assigns no number: it quotes what it assigns. -/
theorem fieldName?_header (h : Header) : fieldName? (Leaf.header h).text = none := by
  have hk : headerKeyword h ∈ keywords ∧ headerKeyword h ∉ fieldLabels := by
    cases h <;> simp [headerKeyword, keywords, fieldLabels]
  rw [header_text]
  cases h with
  | syntaxDecl q =>
      apply fieldName?_led hk.1 hk.2 (startsSolid_cons.2 (by decide))
      intro name r hr
      cases hr
  | packageDecl p =>
      apply fieldName?_of_no_equals
      have hinner : '=' ∉ p.text := p.term.not_mem (by decide)
      simp [led, headerKeyword, headerRest, hinner]
  | importDecl q =>
      apply fieldName?_led hk.1 hk.2 (startsSolid_cons.2 (by decide))
      intro name r hr
      cases hr
  | publicImport q =>
      have hrest : headerRest (.publicImport q) ++ [';'] =
          "public".toList ++ ' ' :: (q.quoted ++ [';']) := led_append _ _ _ |>.symm
      have hword : word? ("public".toList ++ ' ' :: (q.quoted ++ [';'])) =
          some ("public".toList, ' ' :: (q.quoted ++ [';'])) :=
        word?_eq_some_iff.2 ⟨by decide, by decide, fun c hc => by cases hc; decide, rfl⟩
      rw [hrest]
      apply fieldName?_led hk.1 hk.2 ((startsSolid_append (by decide)).2 (by decide))
      intro name r hr
      rw [hword] at hr
      cases hr
      rfl
  | optionDecl n q =>
      have hrest : headerRest (.optionDecl n q) ++ [';'] =
          n.text ++ ' ' :: '=' :: ' ' :: (q.quoted ++ [';']) := by
        simp [headerRest, assigned]
      have hword : word? (n.text ++ ' ' :: '=' :: ' ' :: (q.quoted ++ [';'])) =
          some (n.text, ' ' :: '=' :: ' ' :: (q.quoted ++ [';'])) :=
        word?_eq_some_iff.2 ⟨n.ne_nil, n.word, fun c hc => by cases hc; decide, rfl⟩
      rw [hrest]
      apply fieldName?_led hk.1 hk.2 (startsSolid_of_solid n.ne_nil n.solid)
      intro name r hr
      rw [hword] at hr
      cases hr
      rfl

theorem Signature.no_equals (s : Signature) : '=' ∉ s.text := by
  have hname : '=' ∉ s.name.text := s.name.term.not_mem (by decide)
  have hrequest : '=' ∉ s.request.text := s.request.term.not_mem (by decide)
  have hresponse : '=' ∉ s.response.text := s.response.term.not_mem (by decide)
  simp [Signature.text, led, hname, hrequest, hresponse]

theorem Reservation.no_equals (r : Reservation) : '=' ∉ (Leaf.reserved r).text := by
  have hlist : '=' ∉ r.text := fun hm => absurd (r.plain _ hm) (by decide)
  simp [Leaf.text, Leaf.stem, led, hlist]

theorem Leaf.fieldName?_eq_none {l : Leaf} (hf : ∀ f, l ≠ .field f) (hv : ∀ v, l ≠ .value v) :
    fieldName? l.text = none := by
  cases l with
  | header h => exact fieldName?_header h
  | field f => exact absurd rfl (hf f)
  | reserved r => exact fieldName?_of_no_equals r.no_equals
  | value v => exact absurd rfl (hv v)
  | method s =>
      apply fieldName?_of_no_equals
      simp [text, stem, Signature.no_equals s]
  | deprecated => rfl

theorem fieldName?_opener (o : Opener) : fieldName? o.text = none := by
  apply fieldName?_of_no_equals
  cases o with
  | block keyword name =>
      have hname : '=' ∉ name.text := name.term.not_mem (by decide)
      cases keyword <;> simp [Opener.text, Opener.front, led, Keyword.word, hname]
  | method s => simp [Opener.text, Opener.front, Signature.no_equals s]

end SchemaLint.Document
