import SchemaLint.Proofs.Layout.Start
import SchemaLint.Proofs.Line.Assignment

/-! What lines are read as, by how they start. -/

namespace SchemaLint.Layout
open SchemaLint.Text SchemaLint.Line

theorem asComment?_of_word {c : Char} {s : List Char} (hc : s.head? = some c) (hw : isWord c) :
    asComment? s = none := by
  apply if_neg
  intro h
  have := isComment_of_word hc hw
  rw [isComment, h] at this
  cases this

section
variable {s t : List Char} {b : Char} (hs : ∀ c ∈ s, isBlank c = false) (hb : isBlank b)
include hs hb

theorem findSome?_afterKeyword {α β : Type} (word : α → String) (f : α → List Char → β)
    {items : List α} (h : ∀ i ∈ items, ∀ c ∈ (word i).toList, isBlank c = false) :
    (items.findSome? fun i => (afterKeyword? [word i] (s ++ b :: t)).map (f i)) =
      (items.find? fun i => (word i).toList = s).map fun i => f i (trimStart t) := by
  induction items with
  | nil => rfl
  | cons i items ih =>
      obtain ⟨hi, h⟩ := List.forall_mem_cons.1 h
      rw [List.findSome?_cons, afterKeyword?_append hi hs hb, List.find?_cons, ih h]
      by_cases he : (word i).toList = s <;> simp [he]

theorem asBlock?_append :
    asBlock? (s ++ b :: t) =
      (blockKeywords.find? (·.toList = s)).map fun keyword =>
        (.block, spaceOpener keyword (trimStart t)) :=
  findSome?_afterKeyword hs hb id (fun keyword rest => (Category.block, spaceOpener keyword rest))
    fun _ h => no_blank_of_lineKeyword (mem_lineKeywords_of_block h)

theorem asStatement?_append :
    asStatement? (s ++ b :: t) =
      (statementKeywords.find? (·.1.toList = s)).map fun k =>
        (k.2, spaceKeyword k.1 (trimStart t)) :=
  findSome?_afterKeyword hs hb Prod.fst (fun k rest => (k.2, spaceKeyword k.1 rest))
    fun _ h => no_blank_of_lineKeyword (mem_lineKeywords_of_statement h)

theorem asRpc?_append :
    asRpc? (s ++ b :: t) =
      if "rpc".toList = s then some (.rpc, spaceRpc (trimStart t)) else none := by
  rw [asRpc?, afterKeyword?_append (by decide) hs hb]
  split <;> rfl

end

/-- The line does not start with the keyword of a block, a statement or a method. -/
structure Keywordless (s : List Char) : Prop where
  noBlock : asBlock? s = none
  noStatement : asStatement? s = none
  noRpc : asRpc? s = none

section
variable {w t : List Char} (hw : ∀ c ∈ w, isWord c) (ht : ∀ c ∈ t.head?, isWord c = false)
include hw ht

theorem afterKeyword?_of_ne {keyword : String} (hk : ∀ c ∈ keyword.toList, isWord c)
    (hne : keyword.toList ≠ w) : afterKeyword? [keyword] (w ++ t) = none := by
  refine Option.not_isSome_iff_eq_none.1 fun h => hne ?_
  obtain ⟨b, u, hb, he⟩ := afterKeyword?_isSome_iff.1 h
  refine (word_append_inj hw ht hk ?_ he).1.symm
  intro c hc
  cases hc
  exact isWord_of_isBlank hb

theorem keywordless_of_ne (h : ∀ k ∈ lineKeywords, k.toList ≠ w) : Keywordless (w ++ t) := by
  have none_of : ∀ k ∈ lineKeywords, afterKeyword? [k] (w ++ t) = none := fun k hk =>
    afterKeyword?_of_ne hw ht (word_of_lineKeyword k hk).2 (h k hk)
  refine ⟨?_, ?_, ?_⟩
  · exact List.findSome?_eq_none_iff.2 fun k hk => Option.map_eq_none_iff.2
      (none_of k (List.mem_cons_of_mem _ (List.mem_append_left _ hk)))
  · exact List.findSome?_eq_none_iff.2 fun k hk => Option.map_eq_none_iff.2
      (none_of k.1 (List.mem_cons_of_mem _ (List.mem_append_right _ (List.mem_map_of_mem hk))))
  · exact Option.map_eq_none_iff.2 (none_of "rpc" (List.mem_cons_self ..))

theorem asSyntax?_of_ne (hne : "syntax".toList ≠ w) : asSyntax? (w ++ t) = none := by
  refine Option.eq_none_iff_forall_ne_some.2 fun r hr => hne ?_
  obtain ⟨rest, hrest, -⟩ := Option.map_eq_some_iff.1 hr
  obtain ⟨v, hv, he⟩ := Option.bind_eq_some_iff.1 hrest
  obtain ⟨g, k, hg, -, -, rfl⟩ := afterEquals?_eq_some_iff.1 he
  have hequals := not_word_of_blank_cons (m := '=') hg (by decide) (k ++ rest)
  exact (word_append_inj hw ht (by decide) hequals (after?_eq_some_iff.1 hv)).1.symm

end

theorem readLine_slashes {s : List Char} (h : startsWith "//".toList s) :
    readLine s = (.comment, s) := by
  rw [readLine, asComment?, if_pos h]
  rfl

theorem readLine_block {keyword : String} {t : List Char} {b : Char}
    (hk : keyword ∈ blockKeywords) (hb : isBlank b) :
    readLine (keyword.toList ++ b :: t) = (.block, spaceOpener keyword (trimStart t)) := by
  have hline := mem_lineKeywords_of_block hk
  obtain ⟨c, hc, hw⟩ := startsWord_of_lineKeyword hline
  have hcomment : asComment? (keyword.toList ++ b :: t) = none :=
    asComment?_of_word (List.mem_head?_append_of_mem_head? hc) hw
  have hfind : blockKeywords.find? (·.toList = keyword.toList) = some keyword := by
    simp only [blockKeywords, List.mem_cons, List.not_mem_nil, or_false] at hk
    rcases hk with rfl | rfl | rfl | rfl | rfl <;> decide
  rw [readLine, hcomment, asBlock?_append (no_blank_of_lineKeyword hline) hb, hfind]
  rfl

theorem asSyntax?_eq {g h rest : List Char} (hg : Blank g) (hh : Blank h)
    (hs : StartsSolid rest) :
    asSyntax? ("syntax".toList ++ (g ++ '=' :: (h ++ rest))) =
      some (.syntaxDecl, "syntax = ".toList ++ rest) := by
  rw [asSyntax?, after?_append, Option.bind_some,
    afterEquals?_eq_some_iff.2 ⟨g, h, hg, hh, hs, rfl⟩]
  rfl

theorem readLine_syntaxDecl {g h rest : List Char} (hg : Blank g) (hh : Blank h)
    (hs : StartsSolid rest) :
    readLine ("syntax".toList ++ (g ++ '=' :: (h ++ rest))) =
      (.syntaxDecl, "syntax = ".toList ++ rest) := by
  have hcomment : ∀ t, asComment? ("syntax".toList ++ t) = none :=
    fun t => asComment?_of_word (c := 's') rfl (by decide)
  have hblock : ∀ t, asBlock? ("syntax".toList ++ t) = none := fun t => rfl
  rw [readLine, hcomment, hblock, asSyntax?_eq hg hh hs]
  rfl

theorem readLine_statement {keyword : String} {category : Category} {t : List Char} {b : Char}
    (hk : (keyword, category) ∈ statementKeywords) (hb : isBlank b) :
    readLine (keyword.toList ++ b :: t) = (category, spaceKeyword keyword (trimStart t)) := by
  have hline := mem_lineKeywords_of_statement hk
  obtain ⟨c, hc, hw⟩ := startsWord_of_lineKeyword hline
  have hcomment : asComment? (keyword.toList ++ b :: t) = none :=
    asComment?_of_word (List.mem_head?_append_of_mem_head? hc) hw
  have hsolid := no_blank_of_lineKeyword hline
  have hfind : statementKeywords.find? (·.1.toList = keyword.toList) = some (keyword, category) ∧
      blockKeywords.find? (·.toList = keyword.toList) = none ∧
      asSyntax? (keyword.toList ++ b :: t) = none := by
    simp only [statementKeywords, List.mem_cons, List.not_mem_nil, or_false, Prod.mk.injEq] at hk
    rcases hk with ⟨rfl, rfl⟩ | ⟨rfl, rfl⟩ | ⟨rfl, rfl⟩ | ⟨rfl, rfl⟩ <;>
      exact ⟨by decide, by decide, rfl⟩
  rw [readLine, hcomment, asBlock?_append hsolid hb, asStatement?_append hsolid hb, hfind.1,
    hfind.2.1, hfind.2.2]
  rfl

theorem readLine_rpc {t : List Char} {b : Char} (hb : isBlank b) :
    readLine ("rpc".toList ++ b :: t) = (.rpc, spaceRpc (trimStart t)) := by
  have hcomment : asComment? ("rpc".toList ++ b :: t) = none :=
    asComment?_of_word (c := 'r') rfl (by decide)
  have hdecl : asSyntax? ("rpc".toList ++ b :: t) = none := rfl
  have hsolid : ∀ c ∈ "rpc".toList, isBlank c = false := by decide
  have hblock : blockKeywords.find? (·.toList = "rpc".toList) = none := by decide
  have hstatement : statementKeywords.find? (·.1.toList = "rpc".toList) = none := by decide
  rw [readLine, hcomment, asBlock?_append hsolid hb, hblock, hdecl, asStatement?_append hsolid hb,
    hstatement, asRpc?_append hsolid hb, if_pos rfl]
  rfl

theorem asSyntax?_of_field {s : List Char} (h : (fieldName? s).isSome) : asSyntax? s = none := by
  apply Option.eq_none_iff_forall_ne_some.2
  intro r hr
  obtain ⟨rest, hrest, -⟩ := Option.map_eq_some_iff.1 hr
  obtain ⟨t, ht, he⟩ := Option.bind_eq_some_iff.1 hrest
  obtain ⟨g, k, hg, -, -, rfl⟩ := afterEquals?_eq_some_iff.1 he
  rw [after?_eq_some_iff.1 ht] at h
  have hlabel : afterLabel? ("syntax".toList ++ (g ++ '=' :: (k ++ rest))) = none := rfl
  have htyped : typedName? ("syntax".toList ++ (g ++ '=' :: (k ++ rest))) = none := by
    cases g with
    | nil => rfl
    | cons b g =>
        have htype : IsType "syntax".toList := .path (by decide) (by decide)
        have hsolid : StartsSolid ('=' :: (k ++ rest)) := startsSolid_cons.2 (by decide)
        rw [typedName?, afterType?_append htype (endsType_of_equals hg _), Option.bind_some,
          afterBlanks?_eq_some_iff.2 ⟨b :: g, by simp, hg, hsolid, rfl⟩]
        rfl
  rw [fieldName?, hlabel, numberedName?, htyped] at h
  cases h

theorem readLine_field {s : List Char} (hblock : asBlock? s = none)
    (hstatement : asStatement? s = none) (hrpc : asRpc? s = none) (h : (fieldName? s).isSome) :
    readLine s = (.field, spaceAssignment s) := by
  obtain ⟨name, hn⟩ := Option.isSome_iff_exists.1 h
  obtain ⟨c, hc, hw⟩ := startsWord_of_fieldName? hn
  rw [readLine, asComment?_of_word hc hw, hblock, asSyntax?_of_field h, hstatement, hrpc, asField?,
    hn]
  rfl

theorem readLine_enumValue {s : List Char} (hblock : asBlock? s = none)
    (hdecl : asSyntax? s = none) (hstatement : asStatement? s = none) (hrpc : asRpc? s = none)
    (hfield : fieldName? s = none) (h : (assignment? s).isSome) :
    readLine s = (.enumValue, spaceAssignment s) := by
  obtain ⟨a, ha⟩ := Option.isSome_iff_exists.1 h
  obtain ⟨c, hc, hw⟩ := startsWord_of_assignment? ha
  rw [readLine, asComment?_of_word hc hw, hblock, hdecl, hstatement, hrpc, asField?, hfield,
    asEnumValue?, ha]
  rfl

end SchemaLint.Layout
