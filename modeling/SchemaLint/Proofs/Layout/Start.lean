import SchemaLint.Proofs.Layout.Reading
import SchemaLint.Proofs.Layout.Spelling

/-! How a line starts in normal spacing. A line that starts with a word keeps its first character,
and any other line keeps its text, so comments and closing braces are told from code as before. -/

namespace SchemaLint.Layout
open SchemaLint.Text SchemaLint.Line

theorem head?_tightenBefore {p : Char → Bool} {s : List Char} (h : StartsSolid s) :
    (tightenBefore p s).head? = s.head? := by
  cases s with
  | nil => rfl
  | cons c s =>
      rw [tightenBefore_cons, startsSolid_cons.1 h, Bool.false_and]
      rfl

theorem getLast?_tightenBefore (p : Char → Bool) (s : List Char) :
    (tightenBefore p s).getLast? = s.getLast? := by
  induction s with
  | nil => rfl
  | cons c s ih =>
      rw [tightenBefore_cons]
      split
      case isTrue h =>
          rw [Bool.and_eq_true] at h
          cases s with
          | nil => simp [tightenBefore] at h
          | cons d s => rw [ih, List.getLast?_cons_cons]
      case isFalse => rw [List.getLast?_cons, ih, List.getLast?_cons]

theorem head?_tightenAfter (p : Char → Bool) (s : List Char) :
    (tightenAfter p s).head? = s.head? := by
  rw [tightenAfter, List.head?_reverse, getLast?_tightenBefore, List.getLast?_reverse]

theorem head?_tightenFirstSemicolon {s : List Char} (h : StartsSolid s) :
    (tightenFirstSemicolon s).head? = s.head? := by
  cases s with
  | nil => rfl
  | cons c s =>
      rw [tightenFirstSemicolon, startsSolid_cons.1 h, Bool.false_and]
      rfl

theorem head?_spaceReturns (s : List Char) : (spaceReturns s).head? = s.head? := by
  cases s with
  | nil => rfl
  | cons c s =>
      rw [spaceReturns_cons]
      split
      case isTrue h =>
          rw [h]
          cases afterReturns? (spaceReturns s) <;> rfl
      case isFalse => rfl

theorem head?_trimEnd_append {c : Char} {front t : List Char} (hc : isBlank c = false)
    (hm : t.head? ≠ some c) (h : (front ++ t).head? = some c) (u : List Char) :
    (trimEnd front ++ u).head? = some c := by
  cases front with
  | nil => exact absurd h hm
  | cons d front =>
      have hd : d = c := by simpa using h
      rw [hd, trimEnd_cons hc]
      rfl

theorem head?_spaceFinalBrace {c : Char} {s : List Char} (hc : isWord c)
    (h : s.head? = some c) : (spaceFinalBrace s).head? = some c := by
  have hb := isBlank_of_isWord hc
  have hm : ∀ t : List Char, ('{' :: t).head? ≠ some c := by
    rintro t ⟨⟩
    revert hc
    decide
  unfold spaceFinalBrace
  split
  case h_1 front he =>
      have : s = front.reverse ++ ['{'] := by rw [← List.reverse_cons, ← he, List.reverse_reverse]
      exact head?_trimEnd_append hb (hm []) (this ▸ h) _
  case h_2 front he =>
      have : s = front.reverse ++ ['{', '\n'] := by
        rw [← List.reverse_reverse s, he]
        simp
      exact head?_trimEnd_append hb (hm ['\n']) (this ▸ h) _
  case h_3 => exact h

theorem head?_spaceEquals {c : Char} {s : List Char} (hc : isWord c) (h : s.head? = some c) :
    (spaceEquals s).head? = some c := by
  rw [spaceEquals]
  cases hu : until? '=' s with
  | none => exact h
  | some r =>
      obtain ⟨-, he⟩ := until?_eq_some_iff.1 hu
      have hm : ('=' :: r.2).head? ≠ some c := by
        rintro ⟨⟩
        revert hc
        decide
      change (trimEnd r.1 ++ " = ".toList ++ trimStart r.2).head? = some c
      rw [List.append_assoc]
      exact head?_trimEnd_append (isBlank_of_isWord hc) hm (he ▸ h) _

theorem startsSolid_of_head? {c : Char} {s : List Char} (hc : isWord c) (h : s.head? = some c) :
    StartsSolid s := by
  intro d hd
  rw [h] at hd
  cases hd
  exact isBlank_of_isWord hc

theorem trim_of_head {c : Char} {s : List Char} (hc : s.head? = some c) (hw : isWord c)
    (hs : EndsSolid s) : trim s = s :=
  trim_eq_self_iff.2 ⟨startsSolid_of_head? hw hc, hs⟩

theorem head?_spaceAssignment {c : Char} {s : List Char} (hc : isWord c)
    (h : s.head? = some c) : (spaceAssignment s).head? = some c := by
  have he := head?_spaceEquals hc h
  rw [spaceAssignment, head?_tightenFirstSemicolon (startsSolid_of_head? hc he), he]

theorem head?_spaceRpc (rest : List Char) : (spaceRpc rest).head? = some 'r' := by
  have solid : ∀ {s : List Char}, s.head? = some 'r' → StartsSolid s :=
    startsSolid_of_head? (by decide)
  refine head?_spaceFinalBrace (by decide) ?_
  have h₁ : (tightenAfter (· == '(') (spaceKeyword "rpc" rest)).head? = some 'r' := by
    rw [head?_tightenAfter]
    rfl
  have h₂ := (head?_tightenBefore (p := (· == '(')) (solid h₁)).trans h₁
  have h₃ := (head?_tightenBefore (p := (· == ')')) (solid h₂)).trans h₂
  have h₄ := (head?_spaceReturns _).trans h₃
  exact (head?_tightenBefore (solid h₄)).trans h₄

theorem endsSolid_spaceKeyword {keyword : String} {rest : List Char} (hn : rest ≠ [])
    (hs : EndsSolid rest) : EndsSolid (spaceKeyword keyword rest) := by
  rw [spaceKeyword, endsSolid_append (by simp)]
  exact (endsSolid_append (s := [' ']) hn).2 hs

def StartsWord (s : List Char) : Prop := ∃ c, s.head? = some c ∧ isWord c

theorem StartsWord.of_isPrefix {lead s : List Char} (h : StartsWord lead) (hp : lead <+: s) :
    StartsWord s := by
  obtain ⟨c, hc, hw⟩ := h
  obtain ⟨t, rfl⟩ := hp
  exact ⟨c, List.mem_head?_append_of_mem_head? hc, hw⟩

theorem startsWord_of_word {w : List Char} (hn : w ≠ []) (hw : ∀ c ∈ w, isWord c) :
    StartsWord w := by
  obtain ⟨c, w, rfl⟩ := List.exists_cons_of_ne_nil hn
  exact ⟨c, rfl, hw c (List.mem_cons_self ..)⟩

/-- The keywords of blocks, statements and methods. -/
def lineKeywords : List String :=
  "rpc" :: (blockKeywords ++ statementKeywords.map Prod.fst)

theorem mem_lineKeywords_of_block {keyword : String} (h : keyword ∈ blockKeywords) :
    keyword ∈ lineKeywords :=
  List.mem_cons_of_mem _ (List.mem_append_left _ h)

theorem mem_lineKeywords_of_statement {keyword : String} {category : Category}
    (h : (keyword, category) ∈ statementKeywords) : keyword ∈ lineKeywords :=
  List.mem_cons_of_mem _ (List.mem_append_right _ (List.mem_map_of_mem (f := Prod.fst) h))

theorem word_of_lineKeyword :
    ∀ k ∈ lineKeywords, k.toList ≠ [] ∧ ∀ c ∈ k.toList, isWord c := by
  decide

theorem startsWord_of_lineKeyword {keyword : String} (h : keyword ∈ lineKeywords) :
    StartsWord keyword.toList :=
  startsWord_of_word (word_of_lineKeyword keyword h).1 (word_of_lineKeyword keyword h).2

theorem no_blank_of_lineKeyword {keyword : String} (h : keyword ∈ lineKeywords) :
    ∀ c ∈ keyword.toList, isBlank c = false := by
  intro c hc
  exact isBlank_of_isWord ((word_of_lineKeyword keyword h).2 c hc)

theorem no_slash_of_lineKeyword {keyword : String} (h : keyword ∈ lineKeywords) :
    '/' ∉ keyword.toList := by
  intro hc
  exact absurd ((word_of_lineKeyword keyword h).2 _ hc) (by decide)

theorem startsWord_of_takeWhile {s : List Char} (h : s.takeWhile isWord ≠ []) : StartsWord s := by
  cases s with
  | nil => exact absurd rfl h
  | cons c s =>
      cases hc : isWord c with
      | true => exact ⟨c, rfl, hc⟩
      | false => simp [hc] at h

theorem startsWord_of_afterType? {s rest : List Char} (h : afterType? s = some rest) :
    StartsWord s := by
  unfold afterType? at h
  split at h
  case h_1 r hr =>
      exact .of_isPrefix ⟨'m', rfl, by decide⟩ ⟨r, (after?_eq_some_iff.1 hr).symm⟩
  case h_2 =>
      cases s with
      | nil => simp at h
      | cons c s =>
          by_cases hc : isWord c
          · exact ⟨c, rfl, hc⟩
          · by_cases hd : c = '.'
            · simp [hd, List.splitOn_cons_eq_if_modifyHead] at h
            · simp [hc, hd] at h

theorem startsWord_of_afterKeyword? {keywords : List String} {s rest : List Char}
    (hk : ∀ k ∈ keywords, StartsWord k.toList) (h : afterKeyword? keywords s = some rest) :
    StartsWord s := by
  obtain ⟨k, hm, hs⟩ := List.exists_of_findSome?_eq_some h
  obtain ⟨r, hr, -⟩ := Option.bind_eq_some_iff.1 hs
  exact (hk k hm).of_isPrefix ⟨r, (after?_eq_some_iff.1 hr).symm⟩

theorem startsWord_of_numberedName? {s name : List Char} (h : numberedName? s = some name) :
    StartsWord s := by
  obtain ⟨⟨n, r⟩, hn, -⟩ := Option.bind_eq_some_iff.1 h
  obtain ⟨t, ht, -⟩ := Option.bind_eq_some_iff.1 hn
  obtain ⟨u, hu, -⟩ := Option.bind_eq_some_iff.1 ht
  exact startsWord_of_afterType? hu

theorem startsWord_of_fieldName? {s name : List Char} (h : fieldName? s = some name) :
    StartsWord s := by
  rcases Option.or_eq_some_iff.1 h with h | ⟨-, h⟩
  · obtain ⟨r, hr, -⟩ := Option.bind_eq_some_iff.1 h
    refine startsWord_of_afterKeyword? ?_ hr
    intro k hk
    simp only [List.mem_cons, List.not_mem_nil, or_false] at hk
    rcases hk with rfl | rfl | rfl <;> exact ⟨_, rfl, by decide⟩
  · exact startsWord_of_numberedName? h

theorem startsWord_of_assignment? {s : List Char} {a : Assignment × List Char}
    (h : assignment? s = some a) : StartsWord s := by
  obtain ⟨⟨name, rest⟩, hn, -⟩ := Option.bind_eq_some_iff.1 h
  obtain ⟨hne, ht, -⟩ := run?_eq_some_iff.1 hn
  exact startsWord_of_takeWhile (ht ▸ hne)

/-- Normal spacing keeps the text of a line, or it starts with a word and keeps its first
character. -/
theorem Spelled.head {s t : List Char} {category : Category} (h : Spelled s category t) :
    t = s ∨ ∃ c, s.head? = some c ∧ t.head? = some c ∧ isWord c := by
  cases h with
  | comment => exact .inl rfl
  | @block keyword g rest hk _ _ _ he =>
      obtain ⟨c, hc, hw⟩ := startsWord_of_lineKeyword (mem_lineKeywords_of_block hk)
      have hs : ∀ r : List Char, (keyword.toList ++ r).head? = some c :=
        fun r => List.mem_head?_append_of_mem_head? hc
      exact .inr ⟨c, he ▸ hs _, head?_spaceFinalBrace hw (hs _), hw⟩
  | syntaxDecl _ _ _ he => exact .inr ⟨'s', he ▸ rfl, rfl, by decide⟩
  | @statement keyword _ g rest hk _ _ _ he =>
      obtain ⟨c, hc, hw⟩ := startsWord_of_lineKeyword (mem_lineKeywords_of_statement hk)
      have hs : ∀ r : List Char, (keyword.toList ++ r).head? = some c :=
        fun r => List.mem_head?_append_of_mem_head? hc
      exact .inr ⟨c, he ▸ hs _, hs _, hw⟩
  | rpc _ _ _ he => exact .inr ⟨'r', he ▸ rfl, head?_spaceRpc _, by decide⟩
  | field _ _ _ hn =>
      obtain ⟨c, hc, hw⟩ := startsWord_of_fieldName? hn
      exact .inr ⟨c, hc, head?_spaceAssignment hw hc, hw⟩
  | enumValue _ _ ha =>
      obtain ⟨c, hc, hw⟩ := startsWord_of_assignment? ha
      exact .inr ⟨c, hc, head?_spaceAssignment hw hc, hw⟩
  | other => exact .inl rfl

theorem Spelled.block_head {s t : List Char} (h : Spelled s .block t) :
    ∃ c, t.head? = some c ∧ isWord c := by
  cases h with
  | @block keyword g rest hk _ _ _ _ =>
      obtain ⟨c, hc, hw⟩ := startsWord_of_lineKeyword (mem_lineKeywords_of_block hk)
      exact ⟨c, head?_spaceFinalBrace hw (List.mem_head?_append_of_mem_head? hc), hw⟩
  | statement hk => simp [statementKeywords] at hk

theorem head?_trim {c : Char} {s : List Char} (hc : s.head? = some c) (hw : isWord c) :
    (trim s).head? = some c := by
  obtain ⟨u, rfl⟩ := List.head?_eq_some_iff.1 hc
  have hb := isBlank_of_isWord hw
  rw [trim, (startsSolid_cons.2 hb).trimStart, trimEnd_cons hb]
  rfl

/-- A line as the output has it, but for its indentation. -/
def spaced (s : List Char) : List Char :=
  trim (readLine s).2

theorem spaced_head {s : List Char} (h : trim s = s) :
    spaced s = s ∨ ∃ c, s.head? = some c ∧ (spaced s).head? = some c ∧ isWord c := by
  rcases (spelled_readLine s).head with hs | ⟨c, hc, ht, hw⟩
  · exact .inl (by rw [spaced, hs, h])
  · exact .inr ⟨c, hc, head?_trim ht hw, hw⟩

theorem isComment_of_word {c : Char} {s : List Char} (hc : s.head? = some c) (hw : isWord c) :
    isComment s = false := by
  apply not_isComment_of_head
  intro d hd
  rw [hc] at hd
  cases hd
  refine ⟨?_, ?_⟩ <;> rintro rfl <;> revert hw <;> decide

theorem opensBlock_of_word {c : Char} {s : List Char} (hc : s.head? = some c) (hw : isWord c) :
    opensBlock s = false :=
  opensBlock_of_not_isComment (isComment_of_word hc hw)

theorem isClosingLine_of_word {c : Char} {s : List Char} (hc : s.head? = some c)
    (hw : isWord c) : isClosingLine s = false := by
  by_contra h
  obtain ⟨r, rfl⟩ := isClosingLine_head (Bool.not_eq_false _ ▸ h)
  cases hc
  revert hw
  decide

theorem isCode_of_word {l : List Char} (h : StartsWord (trim l)) (hb : '}' ∉ trim l) :
    IsCode l := by
  obtain ⟨c, hc, hw⟩ := h
  refine ⟨?_, opensBlock_of_word hc hw, isClosingLine_of_word hc hw,
    .inr (statementAndCloser?_of_no_brace hb)⟩
  intro hn
  rw [hn] at hc
  cases hc

theorem opensBlock_spaced {s : List Char} (h : trim s = s) :
    opensBlock (spaced s) = opensBlock s := by
  rcases spaced_head h with hs | ⟨c, hc, ht, hw⟩
  · rw [hs]
  · rw [opensBlock_of_word hc hw, opensBlock_of_word ht hw]

theorem isComment_spaced {s : List Char} (h : trim s = s) :
    isComment (spaced s) = isComment s := by
  rcases spaced_head h with hs | ⟨c, hc, ht, hw⟩
  · rw [hs]
  · rw [isComment_of_word hc hw, isComment_of_word ht hw]

theorem spaced_of_isComment {s : List Char} (h : trim s = s) (hc : isComment s) :
    spaced s = s := by
  rcases spaced_head h with hs | ⟨c, hs, -, hw⟩
  · exact hs
  · rw [isComment_of_word hs hw] at hc
    cases hc

theorem spaced_ne_nil {s : List Char} (h : trim s = s) (hn : s ≠ []) : spaced s ≠ [] := by
  rcases spaced_head h with hs | ⟨c, -, hs, -⟩
  · rwa [hs]
  · intro he
    rw [he] at hs
    cases hs

theorem isClosingLine_spaced {s : List Char} (h : trim s = s) :
    isClosingLine (spaced s) = isClosingLine s := by
  rcases spaced_head h with hs | ⟨c, hc, ht, hw⟩
  · rw [hs]
  · rw [isClosingLine_of_word hc hw, isClosingLine_of_word ht hw]

end SchemaLint.Layout
