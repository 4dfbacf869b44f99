import SchemaLint.Proofs.Layout.Start

/-! The word that a line starts with. The shapes of statements that a keyword leads are decided by
it: a line that starts with another word, or with none, has none of them. -/

namespace SchemaLint.Line
open SchemaLint.Text SchemaLint.Layout

/-- The word at the start; nothing if there is none. -/
def firstWord (s : List Char) : List Char :=
  s.takeWhile isWord

theorem firstWord_append {w t : List Char} (hw : ∀ c ∈ w, isWord c)
    (ht : ∀ c ∈ t.head?, isWord c = false) : firstWord (w ++ t) = w := by
  rw [firstWord, List.takeWhile_append_of_pos hw]
  cases t with
  | nil => exact List.append_nil w
  | cons c t => rw [List.takeWhile_cons_of_neg (by simp [ht c rfl]), List.append_nil]

/-- A word that the text starts with is the first one, unless it goes on. -/
theorem firstWord_of_after? {k s rest : List Char} (hk : ∀ c ∈ k, isWord c)
    (h : after? k s = some rest) (hr : ∀ c ∈ rest.head?, isWord c = false) : firstWord s = k := by
  rw [after?_eq_some_iff.1 h]
  exact firstWord_append hk hr

theorem firstWord_of_afterBlanks? {k s rest : List Char} (hk : ∀ c ∈ k, isWord c)
    (h : (after? k s).bind afterBlanks? = some rest) : firstWord s = k := by
  obtain ⟨t, ht, hb⟩ := Option.bind_eq_some_iff.1 h
  obtain ⟨g, hn, hg, -, rfl⟩ := afterBlanks?_eq_some_iff.1 hb
  exact firstWord_of_after? hk ht (not_word_of_blank hn hg _)

theorem startsWord_of_firstWord {s : List Char} (h : firstWord s ≠ []) : StartsWord s :=
  startsWord_of_takeWhile h

theorem isComment_of_firstWord {s : List Char} (h : firstWord s ≠ []) : isComment s = false := by
  obtain ⟨c, hc, hw⟩ := startsWord_of_firstWord h
  exact isComment_of_word hc hw

theorem head?_ne_of_firstWord {s : List Char} (h : firstWord s ≠ []) {c : Char}
    (hc : isWord c = false) : s.head? ≠ some c := by
  intro hs
  obtain ⟨d, hd, hw⟩ := startsWord_of_firstWord h
  rw [hs] at hd
  cases hd
  rw [hc] at hw
  cases hw

section
variable {s : List Char}

theorem afterKeyword?_eq_none {keywords : List String}
    (hk : ∀ k ∈ keywords, ∀ c ∈ k.toList, isWord c)
    (h : ∀ k ∈ keywords, k.toList ≠ firstWord s) : afterKeyword? keywords s = none :=
  List.findSome?_eq_none_iff.2 fun k hm => Option.eq_none_iff_forall_ne_some.2 fun _ hr =>
    h k hm (firstWord_of_afterBlanks? (hk k hm) hr).symm

theorem declaredName?_eq_none {keyword : String} (hk : ∀ c ∈ keyword.toList, isWord c)
    (h : keyword.toList ≠ firstWord s) : declaredName? keyword s = none := by
  rw [declaredName?, afterKeyword?_eq_none (List.forall_mem_singleton.2 hk)
    (List.forall_mem_singleton.2 h)]
  rfl

theorem startsWith_spaced_eq_false (keyword : List Char) (hk : ∀ c ∈ keyword, isWord c)
    (h : keyword ≠ firstWord s) : startsWith (keyword ++ [' ']) s = false := by
  refine Bool.eq_false_iff.2 fun hs => h ?_
  obtain ⟨t, rfl⟩ := startsWith_iff.1 hs
  rw [List.append_assoc]
  exact (firstWord_append hk fun c hc => by cases hc; decide).symm

theorem word_of_declared : ∀ kind ∈ BlockKind.declared, ∀ c ∈ kind.word.toList, isWord c := by
  decide

theorem opener?_eq_none (h : ∀ kind ∈ BlockKind.declared, kind.word.toList ≠ firstWord s) :
    opener? s = none := by
  refine List.findSome?_eq_none_iff.2 fun kind hm => ?_
  have hk := word_of_declared kind hm
  refine Option.eq_none_iff_forall_ne_some.2 fun o ho => h kind hm ?_
  obtain ⟨rest, hr, ho⟩ := Option.bind_eq_some_iff.1 ho
  cases rest with
  | nil => exact (firstWord_of_after? hk hr (by simp)).symm
  | cons c rest =>
      by_cases hc : c = '{'
      · subst hc
        exact (firstWord_of_after? hk hr fun c hc => by cases hc; decide).symm
      · have hb : (afterBlanks? (c :: rest)).isSome := by
          split at ho
          case h_1 he => cases he
          case h_2 he => exact absurd (List.cons.inj he).1 hc
          case h_3 => exact Option.isSome_map .. ▸ Option.isSome_of_eq_some ho
        obtain ⟨r, hb⟩ := Option.isSome_iff_exists.1 hb
        exact (firstWord_of_afterBlanks? hk (Option.bind_eq_some_iff.2 ⟨_, hr, hb⟩)).symm

theorem syntaxValue?_eq_none (h : "syntax".toList ≠ firstWord s) : syntaxValue? s = none := by
  have hnone : (after? "syntax".toList s).bind afterEquals? = none := by
    refine Option.eq_none_iff_forall_ne_some.2 fun r hr => h ?_
    obtain ⟨t, ht, he⟩ := Option.bind_eq_some_iff.1 hr
    obtain ⟨g, k, hg, -, -, rfl⟩ := afterEquals?_eq_some_iff.1 he
    exact (firstWord_of_after? (by decide) ht (not_word_of_blank_cons hg (by decide) _)).symm
  rw [syntaxValue?, hnone]

end

section
variable {s : List Char} (h : firstWord s = [])
include h

theorem not_startsWord_of_firstWord : ¬ StartsWord s := by
  rintro ⟨c, hc, hw⟩
  obtain ⟨t, rfl⟩ := List.head?_eq_some_iff.1 hc
  rw [firstWord, List.takeWhile_cons_of_pos hw] at h
  cases h

theorem startsWith_of_no_word {keyword : List Char} (hk : keyword.head?.any isWord) :
    startsWith keyword s = false := by
  refine Bool.eq_false_iff.2 fun hs => not_startsWord_of_firstWord h ?_
  obtain ⟨t, rfl⟩ := startsWith_iff.1 hs
  obtain ⟨c, hc, hw⟩ := (Option.any_eq_true _ _).1 hk
  exact ⟨c, by rw [List.head?_append, hc]; rfl, hw⟩

theorem assignment?_of_no_word : assignment? s = none :=
  Option.eq_none_iff_forall_ne_some.2 fun _ ha =>
    not_startsWord_of_firstWord h (startsWord_of_assignment? ha)

theorem fieldName?_of_no_word : fieldName? s = none :=
  Option.eq_none_iff_forall_ne_some.2 fun _ hn =>
    not_startsWord_of_firstWord h (startsWord_of_fieldName? hn)

end

theorem firstWord_keyword {keyword : String} (hk : ∀ c ∈ keyword.toList, isWord c)
    (t : List Char) : firstWord (keyword.toList ++ ' ' :: t) = keyword.toList :=
  firstWord_append hk fun c hc => by cases hc; decide

theorem afterKeyword?_isSome {keywords : List String} {keyword : String}
    (hk : keyword ∈ keywords) (t : List Char) :
    (afterKeyword? keywords (keyword.toList ++ ' ' :: t)).isSome := by
  rw [afterKeyword?, List.findSome?_isSome_iff]
  refine ⟨keyword, hk, ?_⟩
  rw [after?_append, Option.bind_some, afterBlanks?, if_pos (by decide)]
  rfl

end SchemaLint.Line
