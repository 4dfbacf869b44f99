import SchemaLint.Proofs.Structure.Spacing

/-! Members in normal spacing. A field, an enum value and a method are judged by what spacing
leaves as it is; only a keyword with an equals sign right behind it is another word to the check of
enum values once a space follows it. -/

namespace SchemaLint.Structure
open SchemaLint.Text SchemaLint.Line SchemaLint.Layout

/-- The keywords that no enum value starts with. -/
def exemptKeywords : List String := ["option", "reserved"]

theorem word_of_exempt : ∀ k ∈ exemptKeywords, k.toList ≠ [] ∧ ∀ c ∈ k.toList, isWord c := by
  decide

/-- The line starts with such a keyword and an equals sign right behind it. -/
def gluesExempt (l : List Char) : Bool :=
  exemptKeywords.any fun k => startsWith (k.toList ++ ['=']) l

theorem code_append {s r : List Char} (hn : s ≠ []) (hs : StartsSolid s) (he : EndsSolid s)
    (hslash : '/' ∉ s) (hnl : '\n' ∉ s ++ r) :
    code (s ++ r) = s ++ trimEnd (beforeRemark r) := by
  rw [code_eq hnl, (remark_append_of_no_slash hslash r).2, trim,
    StartsSolid.trimStart ((startsSolid_append hn).2 hs), trimEnd_append_of_solid he]

section
variable {c d : List Char} (h : compact d = compact c)
include h

theorem fieldCauses_eq_of_compact (hc : isCloser c = false) (hd : isCloser d = false) :
    fieldCauses d = fieldCauses c := by
  rw [fieldCauses, fieldCauses, isField_of_compact h hc hd, ← hasTerminatedNumber_compact d,
    ← hasUnterminatedNumber_compact d, h, hasTerminatedNumber_compact,
    hasUnterminatedNumber_compact]

theorem valueCauses_eq_of_compact (hvalue : isEnumValue d = isEnumValue c) :
    valueCauses d = valueCauses c := by
  rw [valueCauses, valueCauses, hvalue, ← isTerminatedValue_compact d,
    ← isUnterminatedValue_compact d, h, isTerminatedValue_compact, isUnterminatedValue_compact]

end

/-- A text that starts with a word is an enum value unless an exempt keyword and a space lead it. -/
theorem isEnumValue_of_word {c : List Char} (hc : StartsWord c) :
    isEnumValue c = exemptKeywords.all fun k => !startsWith (k.toList ++ [' ']) c := by
  have hcloser := isCloser_of_word hc
  obtain ⟨a, ha, haw⟩ := hc
  rw [isEnumValue, hcloser, ha, Option.any_some, haw, Bool.and_true, exemptKeywords,
    List.all_cons, List.all_cons, List.all_nil, Bool.and_true]
  rfl

section
variable {l : List Char} (hl : (readLine l).1 = .field ∨ (readLine l).1 = .enumValue)
include hl

theorem member_readLine : StartsWord l ∧ (readLine l).2 = spaceAssignment l := by
  have hs := spelled_readLine l
  generalize readLine l = r at hl hs
  obtain ⟨category, text⟩ := r
  cases hs with
  | field _ _ _ hn => exact ⟨startsWord_of_fieldName? hn, rfl⟩
  | enumValue _ _ ha => exact ⟨startsWord_of_assignment? ha, rfl⟩
  | statement hk =>
      simp only [statementKeywords, List.mem_cons, List.not_mem_nil, or_false, Prod.mk.injEq] at hk
      rcases hk with ⟨-, rfl⟩ | ⟨-, rfl⟩ | ⟨-, rfl⟩ | ⟨-, rfl⟩ <;> simp at hl
  | comment => simp at hl
  | block => simp at hl
  | syntaxDecl => simp at hl
  | rpc => simp at hl
  | other => simp at hl

theorem startsWord_code_member : StartsWord (code l) ∧ StartsWord (code (readLine l).2) := by
  obtain ⟨⟨c, hc, hw⟩, hspaced⟩ := member_readLine hl
  refine ⟨⟨c, head?_code hc hw, hw⟩, ⟨c, head?_code ?_ hw, hw⟩⟩
  rw [hspaced]
  exact head?_spaceAssignment hw hc

/-- An exempt keyword with white space behind it makes a statement of the line. -/
theorem ne_of_member {k : String} (hk : k ∈ exemptKeywords) {b : Char} (hb : isBlank b)
    (t : List Char) : l ≠ k.toList ++ b :: t := by
  have hstatement : ∀ k ∈ exemptKeywords, ∃ category, (k, category) ∈ statementKeywords ∧
      category ≠ .field ∧ category ≠ .enumValue := by
    simp only [exemptKeywords, List.forall_mem_cons]
    exact ⟨⟨.optionDecl, by decide⟩, ⟨.reserved, by decide⟩, nofun⟩
  rintro rfl
  obtain ⟨category, hmem, hfield, hvalue⟩ := hstatement k hk
  rw [readLine_statement hmem hb] at hl
  exact hl.elim hfield hvalue

/-- Spacing puts a space behind an exempt keyword that an equals sign was glued to. -/
theorem startsWith_code_of_glued (hnl : '\n' ∉ l) {k : String} (hk : k ∈ exemptKeywords)
    (hglued : startsWith (k.toList ++ ['=']) l) :
    startsWith (k.toList ++ [' ']) (code (readLine l).2) := by
  obtain ⟨hkn, hkw⟩ := word_of_exempt k hk
  obtain ⟨u, hu⟩ := startsWith_iff.1 hglued
  rw [List.append_assoc, List.singleton_append] at hu
  obtain ⟨hequals, hsemicolon⟩ := no_mark_of_word hkw
  have hsolid := solid_of_forall fun c hc => isBlank_of_isWord (hkw c hc)
  -- the text up to the equals sign holds no semicolon, so the second rule acts behind it
  have hspaced : (readLine l).2 =
      (k.toList ++ " =".toList) ++ tightenFirstSemicolon (' ' :: trimStart u) := by
    have hsplit : k.toList ++ " = ".toList ++ trimStart u =
        (k.toList ++ " =".toList) ++ ' ' :: trimStart u := by simp
    rw [(member_readLine hl).2, ← hu, spaceAssignment, spaceEquals_of_mem hequals,
      hsolid.2.trimEnd, hsplit, tightenFirstSemicolon_append (by simpa using hsemicolon)
        ((endsSolid_append (by decide)).2 (by decide))]
  have hnl' := (respaced_readLine l).no_newline hnl
  have hslash : '/' ∉ k.toList ++ " =".toList := by
    have : '/' ∉ k.toList := fun hm => absurd (hkw _ hm) (by decide)
    simpa using this
  rw [hspaced] at hnl' ⊢
  rw [code_append (by simp) ((startsSolid_append hkn).2 hsolid.1)
    ((endsSolid_append (by decide)).2 (by decide)) hslash hnl']
  exact startsWith_iff.2 ⟨_, by simp only [List.append_assoc]; rfl⟩

variable (ht : trim l = l)
include ht

/-- The code of such a line starts with no exempt keyword and a space, and has one in normal spacing
only behind a keyword that an equals sign was glued to. -/
theorem startsWith_code_of_exempt (hnl : '\n' ∉ l) {k : String} (hk : k ∈ exemptKeywords) :
    startsWith (k.toList ++ [' ']) (code l) = false ∧
      startsWith (k.toList ++ [' ']) (code (readLine l).2) =
        startsWith (k.toList ++ ['=']) l := by
  obtain ⟨hkn, hkw⟩ := word_of_exempt k hk
  obtain ⟨z, hz⟩ := code_isPrefix (trim_eq_self_iff.1 ht).1
  have hblank : ∀ {a : Char} {u : List Char}, isBlank a → code l ≠ k.toList ++ a :: u := by
    intro a u ha hcode
    rw [hcode, List.append_assoc, List.cons_append] at hz
    exact ne_of_member hl hk ha _ hz.symm
  refine ⟨Bool.eq_false_iff.2 fun hs => ?_, Bool.eq_iff_iff.2
    ⟨fun hs => ?_, startsWith_code_of_glued hl hnl hk⟩⟩
  · obtain ⟨u, hu⟩ := startsWith_iff.1 hs
    rw [List.append_assoc] at hu
    exact hblank (a := ' ') (by decide) hu.symm
  · obtain ⟨u, hu⟩ := startsWith_iff.1 hs
    rw [List.append_assoc, ← code_spaced hnl] at hu
    obtain ⟨a, v, ha, hcode⟩ := blank_of_code_spaced (b := ' ') ht hnl hkn hkw (by decide) hu.symm
    rcases ha with ha | rfl
    · exact absurd hcode (hblank ha)
    · rw [hcode] at hz
      exact startsWith_iff.2 ⟨v ++ z, by rw [← hz]; simp⟩

/-- The line counts as an enum value, and in normal spacing unless it glues an exempt keyword. -/
theorem isEnumValue_member (hnl : '\n' ∉ l) :
    isEnumValue (code l) ∧ isEnumValue (code (readLine l).2) = !gluesExempt l := by
  obtain ⟨hword, hword'⟩ := startsWord_code_member hl
  have hexempt := fun k hk => startsWith_code_of_exempt hl ht hnl (k := k) hk
  rw [isEnumValue_of_word hword, isEnumValue_of_word hword', gluesExempt, List.not_any_eq_all_not]
  refine ⟨List.all_eq_true.2 fun k hk => by rw [(hexempt k hk).1]; rfl, ?_⟩
  rw [Bool.eq_iff_iff, List.all_eq_true, List.all_eq_true]
  refine forall₂_congr fun k hk => ?_
  rw [(hexempt k hk).2]

end

/-- A field, an enum value and a method are judged in normal spacing as they were, but that an enum
value named by an exempt keyword with the equals sign glued to it is exempt once it is spaced. -/
theorem member_spaced {l : List Char} (ht : trim l = l) (hnl : '\n' ∉ l) :
    ((readLine l).1 = .field ∨ (readLine l).1 = .enumValue →
      fieldCauses (code (readLine l).2) = fieldCauses (code l) ∧
        valueCauses (code (readLine l).2) =
          if gluesExempt l then [] else valueCauses (code l)) ∧
      ((readLine l).1 = .rpc → isRpc (code l) → isRpc (code (readLine l).2)) := by
  have hcompact := compact_code_spaced hnl
  rw [code_spaced hnl] at hcompact
  refine ⟨fun hl => ?_, fun _ hrpc => ?_⟩
  · obtain ⟨hword, hword'⟩ := startsWord_code_member hl
    obtain ⟨hbefore, hafter⟩ := isEnumValue_member hl ht hnl
    refine ⟨fieldCauses_eq_of_compact hcompact (isCloser_of_word hword) (isCloser_of_word hword'),
      ?_⟩
    cases hg : gluesExempt l with
    | true =>
        rw [valueCauses, hafter, hg]
        rfl
    | false => exact valueCauses_eq_of_compact hcompact (by rw [hafter, hbefore, hg]; rfl)
  · rw [← code_spaced hnl]
    exact isRpc_code_spaced ht hnl (isLooseRpc_of_isRpc hrpc)

/-- Spacing acts on the equals sign in the type of a field; the field lacks its semicolon before and
after. -/
theorem member_spaced_map :
    (trim "map<a=1, b>  m=2".toList = "map<a=1, b>  m=2".toList ∧
      '\n' ∉ "map<a=1, b>  m=2".toList) ∧
    (fieldCauses (code (readLine "map<a=1, b>  m=2".toList).2) = [.fieldLacksSemicolon] ∧
      fieldCauses (code "map<a=1, b>  m=2".toList) = [.fieldLacksSemicolon]) := by
  have hl : trim "map<a=1, b>  m=2".toList = "map<a=1, b>  m=2".toList ∧
      '\n' ∉ "map<a=1, b>  m=2".toList := by decide
  have hcode : fieldCauses (code "map<a=1, b>  m=2".toList) = [.fieldLacksSemicolon] := by decide
  refine ⟨hl, ?_, hcode⟩
  rw [((member_spaced hl.1 hl.2).1 (.inl (by decide))).1, hcode]

/-- An enum value that is named by an exempt keyword and lacks its semicolon is reported, and is not
once its equals sign is spaced. -/
theorem member_spaced_glued :
    ¬ ∀ l : List Char, trim l = l → '\n' ∉ l →
      ((readLine l).1 = .field ∨ (readLine l).1 = .enumValue →
        fieldCauses (code (readLine l).2) = fieldCauses (code l) ∧
          valueCauses (code (readLine l).2) = valueCauses (code l)) ∧
        ((readLine l).1 = .rpc → isRpc (code l) → isRpc (code (readLine l).2)) := by
  intro h
  have hvalue := ((h "reserved=1".toList (by decide) (by decide)).1 (.inr (by decide))).2
  have hbefore : valueCauses (code "reserved=1".toList) = [.valueLacksSemicolon] := by decide
  have hafter : valueCauses (code (readLine "reserved=1".toList).2) = [] := by decide
  rw [hbefore, hafter] at hvalue
  cases hvalue

end SchemaLint.Structure
