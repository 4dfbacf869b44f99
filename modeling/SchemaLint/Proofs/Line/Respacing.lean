import SchemaLint.Proofs.Line.Remark

/-! Respacing. White space beside punctuation comes and goes, and white space elsewhere changes
but does not vanish. All that depends on the visible characters alone outlasts it. -/

namespace SchemaLint.Line
open SchemaLint.Text

/-- The punctuation beside which white space does not matter. -/
def isMark (c : Char) : Bool :=
  c == '(' || c == ')' || c == ';' || c == '=' || c == '{'

/-- White space within one line. -/
structure Gap (g : List Char) : Prop where
  blank : Blank g
  inline : '\n' ∉ g

/-- Pieces of text that stand in for each other: white space next to a mark and, in the wide
sense, white space that stays white space. -/
inductive Swap (wide : Bool) : List Char → List Char → Prop
  | before {g h : List Char} {m : Char} :
      isMark m → Blank g → Gap h → Swap wide (g ++ [m]) (h ++ [m])
  | after {g h : List Char} {m : Char} :
      isMark m → Blank g → Gap h → Swap wide (m :: g) (m :: h)
  | within {g h : List Char} : wide → Blank g → Gap h → g ≠ [] → h ≠ [] → Swap wide g h

/-- The second text is the first with some pieces swapped. -/
inductive Respaced (wide : Bool) : List Char → List Char → Prop
  | refl (s : List Char) : Respaced wide s s
  | swap (u v : List Char) {k l : List Char} :
      Swap wide k l → Respaced wide (u ++ k ++ v) (u ++ l ++ v)
  | trans {s t u : List Char} : Respaced wide s t → Respaced wide t u → Respaced wide s u

variable {wide : Bool}

@[simp] theorem Gap.nil : Gap [] := ⟨.nil, by simp⟩

theorem Gap.space : Gap [' '] := ⟨by decide, by decide⟩

theorem isWord_of_isMark {m : Char} (h : isMark m) : isWord m = false := by
  simp only [isMark, Bool.or_eq_true, beq_iff_eq] at h
  rcases h with (((rfl | rfl) | rfl) | rfl) | rfl <;> decide

theorem isBlank_of_isMark {m : Char} (h : isMark m) : isBlank m = false := by
  simp only [isMark, Bool.or_eq_true, beq_iff_eq] at h
  rcases h with (((rfl | rfl) | rfl) | rfl) | rfl <;> decide

theorem isMark_of_isWord {c : Char} (h : isWord c) : isMark c = false := by
  cases hm : isMark c with
  | false => rfl
  | true => rw [← isWord_of_isMark hm, h]

theorem isMark_of_isBlank {c : Char} (h : isBlank c) : isMark c = false := by
  cases hm : isMark c with
  | false => rfl
  | true => rw [← isBlank_of_isMark hm, h]

theorem ne_slash_of_isMark {m : Char} (h : isMark m) : m ≠ '/' := by
  rintro rfl
  cases h

theorem ne_newline_of_isMark {m : Char} (h : isMark m) : m ≠ '\n' := by
  rintro rfl
  cases h

theorem Swap.no_slash {k l : List Char} (h : Swap wide k l) : '/' ∉ k ∧ '/' ∉ l := by
  cases h with
  | before hm hg hh =>
      simp [no_slash_of_blank hg, no_slash_of_blank hh.blank, (ne_slash_of_isMark hm).symm]
  | after hm hg hh =>
      simp [no_slash_of_blank hg, no_slash_of_blank hh.blank, (ne_slash_of_isMark hm).symm]
  | within _ hg hh _ _ => exact ⟨no_slash_of_blank hg, no_slash_of_blank hh.blank⟩

theorem blank_reverse {g : List Char} (h : Blank g) : Blank g.reverse := by
  intro c hc
  exact h c (List.mem_reverse.1 hc)

theorem Gap.reverse {g : List Char} (h : Gap g) : Gap g.reverse :=
  ⟨blank_reverse h.blank, fun hm => h.inline (List.mem_reverse.1 hm)⟩

theorem Swap.reverse {k l : List Char} (h : Swap wide k l) : Swap wide k.reverse l.reverse := by
  cases h with
  | before hm hg hh => simpa using Swap.after hm (blank_reverse hg) hh.reverse
  | after hm hg hh => simpa using Swap.before hm (blank_reverse hg) hh.reverse
  | within hw hg hh hng hnh =>
      exact .within hw (blank_reverse hg) hh.reverse (by simpa using hng) (by simpa using hnh)

theorem Swap.ne_nil {k l : List Char} (h : Swap wide k l) : k ≠ [] ∧ l ≠ [] := by
  cases h with
  | before => simp
  | after => simp
  | within _ _ _ hg hh => exact ⟨hg, hh⟩

/-- A piece without slashes starts no remark with what precedes it. -/
theorem unjoined_of_no_slash {k : List Char} (hs : '/' ∉ k) (hn : k ≠ []) (u v : List Char) :
    Unjoined u (k ++ v) := by
  apply Unjoined.of_head
  rw [List.head?_append_of_ne_nil _ hn]
  exact fun h => hs (List.mem_of_head? h)

theorem Swap.no_newline {k l : List Char} (h : Swap wide k l) (hk : '\n' ∉ k) : '\n' ∉ l := by
  cases h with
  | before hm hg hh => simp [hh.inline, (ne_newline_of_isMark hm).symm]
  | after hm hg hh => simp [hh.inline, (ne_newline_of_isMark hm).symm]
  | within _ hg hh _ _ => exact hh.inline

theorem Swap.lexemes {k l : List Char} (h : Swap wide k l) (u v : List Char) :
    lexemes (u ++ k ++ v) = lexemes (u ++ l ++ v) := by
  cases h with
  | @before g h m hm hg hh =>
      have hw : ∀ b ∈ (m :: v).head?, isWord b = false := by
        simpa using isWord_of_isMark hm
      have key : ∀ x : List Char, Blank x →
          Text.lexemes (u ++ (x ++ [m]) ++ v) = Text.lexemes u ++ Text.lexemes (m :: v) := by
        intro x hx
        rw [show u ++ (x ++ [m]) ++ v = u ++ x ++ m :: v by simp, lexemes_append (.of_head hw),
          lexemes_append_blank hx]
      rw [key g hg, key h hh.blank]
  | @after g h m hm hg hh =>
      have hw : ∀ a ∈ (u ++ [m]).getLast?, isWord a = false := by
        simpa using isWord_of_isMark hm
      have key : ∀ x : List Char, Blank x →
          Text.lexemes (u ++ m :: x ++ v) = Text.lexemes (u ++ [m]) ++ Text.lexemes v := by
        intro x hx
        rw [show u ++ m :: x ++ v = (u ++ [m]) ++ (x ++ v) by simp, lexemes_append (.of_last hw),
          lexemes_blank_append hx]
      rw [key g hg, key h hh.blank]
  | within _ hg hh hng hnh =>
      have key : ∀ x : List Char, Blank x → x ≠ [] →
          Text.lexemes (u ++ x ++ v) = Text.lexemes u ++ Text.lexemes v := by
        intro x hx hn
        have hw : ∀ a ∈ (u ++ x).getLast?, isWord a = false := by
          rw [List.getLast?_append_of_ne_nil _ hn]
          exact fun a ha => isWord_of_isBlank (hx a (List.mem_of_getLast? ha))
        rw [lexemes_append (.of_last hw), lexemes_append_blank hx]
      rw [key k hg hng, key l hh.blank hnh]

namespace Respaced

theorem append_left {s t : List Char} (h : Respaced wide s t) (p : List Char) :
    Respaced wide (p ++ s) (p ++ t) := by
  induction h with
  | refl s => exact .refl _
  | swap u v hk => simpa only [List.append_assoc] using Respaced.swap (p ++ u) v hk
  | trans _ _ ih₁ ih₂ => exact .trans ih₁ ih₂

theorem cons {s t : List Char} (h : Respaced wide s t) (c : Char) :
    Respaced wide (c :: s) (c :: t) :=
  h.append_left [c]

theorem before {g h : List Char} {m : Char} (hm : isMark m) (hg : Blank g) (hh : Gap h)
    (v : List Char) : Respaced wide (g ++ m :: v) (h ++ m :: v) := by
  simpa using Respaced.swap [] v (.before hm hg hh)

theorem after {g h : List Char} {m : Char} (hm : isMark m) (hg : Blank g) (hh : Gap h)
    (v : List Char) : Respaced wide (m :: g ++ v) (m :: h ++ v) :=
  .swap [] v (.after hm hg hh)

theorem reverse {s t : List Char} (h : Respaced wide s t) : Respaced wide s.reverse t.reverse := by
  induction h with
  | refl s => exact .refl _
  | swap u v hk => simpa using Respaced.swap v.reverse u.reverse hk.reverse
  | trans _ _ ih₁ ih₂ => exact .trans ih₁ ih₂

theorem lexemes {s t : List Char} (h : Respaced wide s t) : lexemes s = lexemes t := by
  induction h with
  | refl s => rfl
  | swap u v hk => exact hk.lexemes u v
  | trans _ _ ih₁ ih₂ => exact ih₁.trans ih₂

theorem no_newline {s t : List Char} (h : Respaced wide s t) (hs : '\n' ∉ s) : '\n' ∉ t := by
  induction h with
  | refl s => exact hs
  | swap u v hk =>
      simp only [List.mem_append, not_or] at hs ⊢
      exact ⟨⟨hs.1.1, hk.no_newline hs.1.2⟩, hs.2⟩
  | trans _ _ ih₁ ih₂ => exact ih₂ (ih₁ hs)

/-- Respacing a line respaces its code and its remark, each on its own. -/
theorem remark {s t : List Char} (h : Respaced wide s t) :
    Respaced wide (beforeRemark s) (beforeRemark t) ∧ Respaced wide (remark s) (remark t) := by
  induction h with
  | refl s => exact ⟨.refl _, .refl _⟩
  | @swap u v k l hk =>
      simp only [List.append_assoc]
      by_cases hu : Line.remark u = []
      · obtain ⟨hsk, hsl⟩ := hk.no_slash
        obtain ⟨hnk, hnl⟩ := hk.ne_nil
        obtain ⟨hrk, hbk⟩ := remark_append_of_no_slash hsk v
        obtain ⟨hrl, hbl⟩ := remark_append_of_no_slash hsl v
        obtain ⟨hr, hb⟩ := remark_append_of_nil hu (unjoined_of_no_slash hsk hnk u v)
        obtain ⟨hr', hb'⟩ := remark_append_of_nil hu (unjoined_of_no_slash hsl hnl u v)
        rw [hr, hb, hr', hb', hrk, hbk, hrl, hbl]
        simp only [← List.append_assoc]
        exact ⟨.swap u _ hk, .refl _⟩
      · obtain ⟨hr, hb⟩ := remark_append_of_ne_nil hu (k ++ v)
        obtain ⟨hr', hb'⟩ := remark_append_of_ne_nil hu (l ++ v)
        rw [hr, hb, hr', hb']
        simp only [← List.append_assoc]
        exact ⟨.refl _, .swap _ v hk⟩
  | trans _ _ ih₁ ih₂ => exact ⟨ih₁.1.trans ih₂.1, ih₁.2.trans ih₂.2⟩

end Respaced

/-- The visible characters, in order. -/
def ink (s : List Char) : List Char :=
  s.filter (!isBlank ·)

@[simp] theorem ink_nil : ink [] = [] := rfl

@[simp] theorem ink_append (s t : List Char) : ink (s ++ t) = ink s ++ ink t :=
  List.filter_append ..

theorem ink_blank {g : List Char} (h : Blank g) : ink g = [] := by
  rw [ink, List.filter_eq_nil_iff]
  intro c hc
  simp [h c hc]

theorem ink_cons_of_not {c : Char} (h : isBlank c = false) (s : List Char) :
    ink (c :: s) = c :: ink s := by
  simp [ink, h]

@[simp] theorem ink_trim (s : List Char) : ink (trim s) = ink s := by
  obtain ⟨g, k, hg, hk, he⟩ := exists_trim s
  conv_rhs => rw [he, ink_append, ink_append, ink_blank hg, ink_blank hk, List.nil_append,
    List.append_nil]

theorem ink_eq_nil_iff {s : List Char} : ink s = [] ↔ Blank s := by
  simp [ink, Blank]

theorem Swap.ink {k l : List Char} (h : Swap wide k l) : ink k = ink l := by
  cases h with
  | before hm hg hh => rw [ink_append, ink_append, ink_blank hg, ink_blank hh.blank]
  | after hm hg hh =>
      rw [ink_cons_of_not (isBlank_of_isMark hm), ink_cons_of_not (isBlank_of_isMark hm),
        ink_blank hg, ink_blank hh.blank]
  | within _ hg hh _ _ => rw [ink_blank hg, ink_blank hh.blank]

theorem Respaced.ink {s t : List Char} (h : Respaced wide s t) : ink s = ink t := by
  induction h with
  | refl s => rfl
  | swap u v hk => simp only [ink_append, hk.ink]
  | trans _ _ ih₁ ih₂ => exact ih₁.trans ih₂

theorem count_ink {c : Char} (hc : isBlank c = false) (s : List Char) :
    (ink s).count c = s.count c :=
  List.count_filter (by simp [hc])

theorem Respaced.count {s t : List Char} (h : Respaced wide s t) {c : Char}
    (hc : isBlank c = false) : t.count c = s.count c := by
  rw [← count_ink hc, ← h.ink, count_ink hc]

/-- A text without marks has no room for respacing in the narrow sense. -/
theorem Respaced.eq_of_unmarked {s t : List Char} (h : Respaced false s t)
    (hm : ∀ c ∈ s, isMark c = false) : t = s := by
  induction h with
  | refl s => rfl
  | swap u v hk =>
      have absent : ∀ {m}, isMark m → m ∉ u ++ _ ++ v := fun hmm hmem => by
        rw [hm _ hmem] at hmm
        cases hmm
      cases hk with
      | before hmm => exact absurd (by simp) (absent hmm)
      | after hmm => exact absurd (by simp) (absent hmm)
      | within hw => cases hw
  | trans _ _ ih₁ ih₂ =>
      obtain rfl := ih₁ hm
      exact ih₂ hm

theorem suffix_of_append_cons {r p v : List Char} {m : Char} (hm : m ∉ r)
    (h : r <:+ p ++ m :: v) : r <:+ v := by
  rcases List.suffix_or_suffix_of_suffix h (List.suffix_append p (m :: v)) with h | h
  · rcases List.suffix_cons_iff.1 h with rfl | h
    · exact absurd (List.mem_cons_self ..) hm
    · exact h
  · exact absurd (h.subset (List.mem_cons_self ..)) hm

theorem suffix_of_blank_append {r g v : List Char} (hn : r ≠ []) (hr : StartsSolid r)
    (hg : Blank g) (h : r <:+ g ++ v) : r <:+ v := by
  induction g with
  | nil => exact h
  | cons c g ih =>
      obtain ⟨hc, hg⟩ := blank_cons.1 hg
      rcases List.suffix_cons_iff.1 h with rfl | h
      · rw [startsSolid_cons, hc] at hr
        cases hr
      · exact ih hg h

theorem Respaced.suffix {r s t : List Char} (h : Respaced false s t)
    (hm : ∀ c ∈ r, isMark c = false) (hn : r ≠ []) (hr : StartsSolid r) (hs : r <:+ s) :
    r <:+ t := by
  induction h with
  | refl s => exact hs
  | swap u v hk =>
      have unmarked : ∀ {m}, isMark m → m ∉ r := fun hmm hmem => by
        rw [hm _ hmem] at hmm
        cases hmm
      refine List.IsSuffix.trans ?_ (List.suffix_append _ v)
      cases hk with
      | @before g h m hmm _ _ =>
          rw [List.append_assoc, List.append_assoc, ← List.append_assoc] at hs
          exact suffix_of_append_cons (unmarked hmm) hs
      | @after g h m hmm hg _ =>
          rw [List.append_assoc] at hs
          exact suffix_of_blank_append hn hr hg (suffix_of_append_cons (unmarked hmm) hs)
      | within hw => cases hw
  | trans _ _ ih₁ ih₂ => exact ih₂ (ih₁ hs)

end SchemaLint.Line
