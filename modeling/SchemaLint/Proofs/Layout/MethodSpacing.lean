import SchemaLint.Proofs.Layout.Start

/-! The spacing of methods as one pass from the right. The rules apply one after another to the
whole text; the pass places one character at a time before text that all rules have seen. -/

namespace SchemaLint.Layout
open SchemaLint.Text SchemaLint.Line

/-- The marks that no white space precedes. -/
def isTight (c : Char) : Bool :=
  c == '(' || c == ')' || c == ';'

/-- A closing parenthesis before text that is spaced. -/
def placeClosing (rest : List Char) : List Char :=
  match afterReturns? rest with
  | some inner => ") returns (".toList ++ inner
  | none => ')' :: rest

/-- One character before text that is spaced, but for a brace at its end. -/
def place (c : Char) (rest : List Char) : List Char :=
  if isBlank c && rest.head?.any isTight then rest
  else if c = ')' then placeClosing rest
  else c :: rest

def placeInMethod (c : Char) (rest : List Char) : List Char :=
  if isBlank c && (rest.head?.any isTight || rest = " \x7b".toList) then rest
  else if c = ')' then placeClosing rest
  else c :: rest

theorem tightenBefore_blank_concat {p : Char → Bool} {g : List Char} (hg : Blank g) {c : Char}
    (hc : p c) : tightenBefore p (g ++ [c]) = [c] := by
  induction g with
  | nil => simp [tightenBefore]
  | cons d g ih =>
      obtain ⟨hd, hg⟩ := blank_cons.1 hg
      rw [List.cons_append, tightenBefore_cons, ih hg, hd]
      simp [hc]

theorem tightenBefore_eq_nil_iff {p : Char → Bool} {s : List Char} :
    tightenBefore p s = [] ↔ s = [] := by
  rw [← List.getLast?_eq_none_iff, getLast?_tightenBefore, List.getLast?_eq_none_iff]

theorem tightenBefore_concat_of_mem {p : Char → Bool} {c : Char} (hc : p c) (s : List Char) :
    tightenBefore p (s ++ [c]) = tightenBefore p (trimEnd s) ++ [c] := by
  induction s with
  | nil => exact tightenBefore_blank_concat .nil hc
  | cons d s ih =>
      by_cases hb : Blank s
      · by_cases hd : isBlank d
        · have hds : Blank (d :: s) := blank_cons.2 ⟨hd, hb⟩
          rw [tightenBefore_blank_concat hds hc, trimEnd_eq_nil_iff.2 hds]
          rfl
        · have ht : trimEnd (d :: s) = [d] := by
            rw [trimEnd_cons (eq_false_of_ne_true hd), trimEnd_eq_nil_iff.2 hb]
          rw [List.cons_append, tightenBefore_cons, tightenBefore_blank_concat hb hc, ht,
            eq_false_of_ne_true hd]
          simp [tightenBefore, eq_false_of_ne_true hd]
      · have ht : trimEnd (d :: s) = d :: trimEnd s := by
          rw [← List.singleton_append, trimEnd_append_of_not_blank _ hb, List.singleton_append]
        have hn : tightenBefore p (trimEnd s) ≠ [] := by
          rwa [ne_eq, tightenBefore_eq_nil_iff, trimEnd_eq_nil_iff]
        rw [List.cons_append, tightenBefore_cons, ih, ht, tightenBefore_cons,
          List.head?_append_of_ne_nil _ hn]
        split <;> rfl

theorem tightenBefore_concat_of_not_mem {p : Char → Bool} {c : Char} (hc : p c = false)
    (s : List Char) : tightenBefore p (s ++ [c]) = tightenBefore p s ++ [c] := by
  induction s with
  | nil => simp [tightenBefore]
  | cons d s ih =>
      rw [List.cons_append, tightenBefore_cons, ih, tightenBefore_cons]
      cases hs : tightenBefore p s with
      | nil => simp [hc]
      | cons e t =>
          rw [List.cons_append, List.head?_cons, List.head?_cons, apply_ite (· ++ [c])]
          rfl

theorem tightenAfter_cons (p : Char → Bool) (c : Char) (s : List Char) :
    tightenAfter p (c :: s) = c :: tightenAfter p (if p c then trimStart s else s) := by
  have hr : trimEnd s.reverse = (trimStart s).reverse := by
    rw [trimEnd, List.reverse_reverse]
  rw [tightenAfter, List.reverse_cons]
  split
  case isTrue hc =>
      rw [tightenBefore_concat_of_mem hc, hr, List.reverse_append]
      rfl
  case isFalse hc =>
      rw [tightenBefore_concat_of_not_mem (eq_false_of_ne_true hc), List.reverse_append]
      rfl

/-- What precedes the first mark of a class stays, but for white space at its end. -/
theorem tightenBefore_append {p : Char → Bool} {s : List Char} (hp : ∀ c ∈ s, p c = false)
    (hs : EndsSolid s) (t : List Char) : tightenBefore p (s ++ t) = s ++ tightenBefore p t := by
  induction s with
  | nil => rfl
  | cons c s ih =>
      obtain ⟨hc, hps⟩ := List.forall_mem_cons.1 hp
      rw [List.cons_append, tightenBefore_cons, ih hps hs.of_cons]
      cases s with
      | nil =>
          rw [show isBlank c = false from endsSolid_concat (s := []).1 hs]
          rfl
      | cons d s => simp [hps d (List.mem_cons_self ..)]

theorem exists_of_tightenBefore_eq_append {p : Char → Bool} {s t u : List Char}
    (hp : ∀ c ∈ s, p c = false) (h : tightenBefore p u = s ++ t) :
    ∃ v, u = s ++ v ∧ tightenBefore p v = t := by
  induction s generalizing u with
  | nil => exact ⟨u, rfl, h⟩
  | cons c s ih =>
      obtain ⟨hc, hps⟩ := List.forall_mem_cons.1 hp
      cases u with
      | nil => cases h
      | cons d u =>
          rw [tightenBefore_cons] at h
          split at h
          case isTrue hd =>
              rw [h] at hd
              simp [hc] at hd
          case isFalse =>
              rw [List.cons_append] at h
              obtain ⟨rfl, ht⟩ := List.cons.inj h
              obtain ⟨v, rfl, hv⟩ := ih hps ht
              exact ⟨v, rfl, hv⟩

theorem head?_of_tightenBefore {p : Char → Bool} {c : Char} {s : List Char} (hc : p c = false)
    (h : (tightenBefore p s).head? = some c) : s.head? = some c := by
  obtain ⟨t, ht⟩ := List.head?_eq_some_iff.1 h
  obtain ⟨v, rfl, -⟩ := exists_of_tightenBefore_eq_append (s := [c]) (by simpa using hc) ht
  rfl

theorem head?_tightenBefore_of_solid {p : Char → Bool} {c : Char} {s : List Char}
    (hc : isBlank c = false) (h : s.head? = some c) : (tightenBefore p s).head? = some c := by
  rw [head?_tightenBefore, h]
  intro d hd
  rw [h] at hd
  cases hd
  exact hc

theorem head?_tightenBefore_iff {p : Char → Bool} {c : Char} {s : List Char} (hp : p c = false)
    (hc : isBlank c = false) : (tightenBefore p s).head? = some c ↔ s.head? = some c :=
  ⟨head?_of_tightenBefore hp, head?_tightenBefore_of_solid hc⟩

/-- The text between a closing parenthesis and what the next parenthesis holds. -/
def returnsLead (g h : List Char) : List Char :=
  g ++ ("returns".toList ++ (h ++ ['(']))

theorem afterReturns?_iff {s inner : List Char} :
    afterReturns? s = some inner ↔
      ∃ g h, Blank g ∧ Blank h ∧ s = returnsLead g h ++ inner := by
  rw [afterReturns?_eq_some_iff]
  simp only [returnsLead, List.append_assoc, List.singleton_append]

theorem mem_returnsLead {g h : List Char} (hg : Blank g) (hh : Blank h) {c : Char}
    (hc : c ∈ returnsLead g h) : isBlank c ∨ c ∈ "returns(".toList := by
  simp only [returnsLead, List.mem_append] at hc
  rcases hc with hc | hc | hc | hc
  · exact .inl (hg c hc)
  · exact .inr ((List.prefix_append "returns".toList ['(']).subset hc)
  · exact .inl (hh c hc)
  · exact .inr ((List.suffix_append "returns".toList ['(']).subset hc)

theorem getLast?_returnsLead (g h : List Char) : (returnsLead g h).getLast? = some '(' := by
  have : returnsLead g h = (g ++ ("returns".toList ++ h)) ++ ['('] := by
    simp only [returnsLead, List.append_assoc]
  rw [this, List.getLast?_concat]

theorem endsSolid_returnsLead (g h : List Char) : EndsSolid (returnsLead g h) :=
  .of_getLast? (getLast?_returnsLead g h) (by decide)

theorem afterReturns?_tightenBefore_semicolon (s : List Char) :
    afterReturns? (tightenBefore (· == ';') s) =
      (afterReturns? s).map (tightenBefore (· == ';')) := by
  have unmarked : ∀ {g h : List Char}, Blank g → Blank h →
      ∀ c ∈ returnsLead g h, (c == ';') = false := by
    intro g h hg hh c hc
    rcases mem_returnsLead hg hh hc with hb | hm
    · rw [beq_eq_false_iff_ne]
      rintro rfl
      revert hb
      decide
    · have : ∀ d ∈ "returns(".toList, (d == ';') = false := by decide
      exact this c hm
  cases h : afterReturns? s with
  | some inner =>
      obtain ⟨g, k, hg, hk, rfl⟩ := afterReturns?_iff.1 h
      rw [tightenBefore_append (unmarked hg hk) (endsSolid_returnsLead g k)]
      exact afterReturns?_iff.2 ⟨g, k, hg, hk, rfl⟩
  | none =>
      apply Option.eq_none_iff_forall_ne_some.2
      intro inner hi
      obtain ⟨g, k, hg, hk, he⟩ := afterReturns?_iff.1 hi
      obtain ⟨v, rfl, -⟩ := exists_of_tightenBefore_eq_append (unmarked hg hk) he
      rw [afterReturns?_iff.2 ⟨g, k, hg, hk, rfl⟩] at h
      cases h

@[simp] theorem spaceParens_nil : spaceParens [] = [] := rfl

theorem any_head?_eq_iff {m : Char} {s : List Char} :
    s.head?.any (· == m) ↔ s.head? = some m := by
  cases s <;> simp

theorem any_head?_isTight_iff {s : List Char} :
    s.head?.any isTight ↔ s.head? = some '(' ∨ s.head? = some ')' ∨ s.head? = some ';' := by
  cases s <;> simp [isTight, or_assoc]

theorem spaceReturns_cons_eq (c : Char) (s : List Char) :
    spaceReturns (c :: s) =
      if c = ')' then placeClosing (spaceReturns s) else c :: spaceReturns s := by
  rw [spaceReturns_cons, placeClosing]
  split
  case isTrue hc =>
      subst hc
      cases afterReturns? (spaceReturns s) <;> rfl
  case isFalse => rfl

theorem tightenBefore_semicolon_placeClosing (s : List Char) :
    tightenBefore (· == ';') (placeClosing s) = placeClosing (tightenBefore (· == ';') s) := by
  rw [placeClosing, placeClosing, afterReturns?_tightenBefore_semicolon]
  cases afterReturns? s with
  | none => rfl
  | some inner => exact tightenBefore_append (by decide) (by decide) inner

/-- The spacing of parentheses but for what follows an opening one. -/
def closeParens (s : List Char) : List Char :=
  tightenBefore (· == ';') (spaceReturns (tightenBefore (· == ')') (tightenBefore (· == '(') s)))

theorem head?_closeParens_opening (s : List Char) :
    (tightenBefore (· == '(') s).head? = some '(' ↔ (closeParens s).head? = some '(' := by
  rw [closeParens, head?_tightenBefore_iff (p := (· == ';')) (by decide) (by decide),
    head?_spaceReturns, head?_tightenBefore_iff (p := (· == ')')) (by decide) (by decide)]

theorem head?_closeParens_closing (s : List Char) :
    (tightenBefore (· == ')') (tightenBefore (· == '(') s)).head? = some ')' ↔
      (closeParens s).head? = some ')' := by
  rw [closeParens, head?_tightenBefore_iff (p := (· == ';')) (by decide) (by decide),
    head?_spaceReturns]

theorem closeParens_cons_solid {c : Char} (hc : isBlank c = false) (s : List Char) :
    closeParens (c :: s) =
      if c = ')' then placeClosing (closeParens s) else c :: closeParens s := by
  have solid : ∀ (p : Char → Bool) (t : List Char),
      tightenBefore p (c :: t) = c :: tightenBefore p t := by
    intro p t
    rw [tightenBefore_cons, hc, Bool.false_and, if_neg Bool.false_ne_true]
  rw [closeParens, solid, solid, spaceReturns_cons_eq]
  split
  case isTrue => exact tightenBefore_semicolon_placeClosing _
  case isFalse => exact solid ..

/-- White space is dropped by the first rule whose mark it precedes. -/
theorem closeParens_cons_blank {c : Char} (hc : isBlank c) (s : List Char) :
    closeParens (c :: s) =
      if (closeParens s).head?.any isTight then closeParens s else c :: closeParens s := by
  have hclose : c ≠ ')' := by
    rintro rfl
    revert hc
    decide
  have blank : ∀ (m : Char) (t : List Char), tightenBefore (· == m) (c :: t) =
      if (tightenBefore (· == m) t).head? = some m then tightenBefore (· == m) t
      else c :: tightenBefore (· == m) t := by
    intro m t
    simp only [tightenBefore_cons, hc, Bool.true_and, any_head?_eq_iff]
  simp only [any_head?_isTight_iff, ← head?_closeParens_opening, ← head?_closeParens_closing]
  rw [closeParens, blank]
  by_cases h₁ : (tightenBefore (· == '(') s).head? = some '('
  · rw [if_pos h₁, if_pos (.inl h₁), closeParens]
  · rw [if_neg h₁, blank]
    by_cases h₂ : (tightenBefore (· == ')') (tightenBefore (· == '(') s)).head? = some ')'
    · rw [if_pos h₂, if_pos (.inr (.inl h₂)), closeParens]
    · rw [if_neg h₂, spaceReturns_cons_eq, if_neg hclose, blank]
      exact if_congr (by simp only [h₁, h₂, false_or]; rfl) rfl rfl

theorem closeParens_cons (c : Char) (s : List Char) :
    closeParens (c :: s) = place c (closeParens s) := by
  rw [place]
  cases hc : isBlank c with
  | false => rw [Bool.false_and, if_neg Bool.false_ne_true, closeParens_cons_solid hc]
  | true =>
      have hclose : c ≠ ')' := by
        rintro rfl
        revert hc
        decide
      rw [Bool.true_and, if_neg hclose, closeParens_cons_blank hc]

theorem spaceParens_cons (c : Char) (s : List Char) :
    spaceParens (c :: s) = place c (spaceParens (if c = '(' then trimStart s else s)) := by
  have hif : (if (c == '(') = true then trimStart s else s) =
      if c = '(' then trimStart s else s := by simp
  rw [spaceParens, tightenAfter_cons, hif]
  exact closeParens_cons c _

theorem spaceFinalBrace_concat (s : List Char) :
    spaceFinalBrace (s ++ ['{']) = trimEnd s ++ " \x7b".toList := by
  have hr : (s ++ ['{']).reverse = '{' :: s.reverse := by
    rw [List.reverse_append]
    rfl
  rw [spaceFinalBrace, hr]
  change trimEnd s.reverse.reverse ++ _ = _
  rw [List.reverse_reverse]

theorem spaceFinalBrace_of_ne {s : List Char} (hs : EndsSolid s) (h : s.getLast? ≠ some '{') :
    spaceFinalBrace s = s := by
  unfold spaceFinalBrace
  split
  case h_1 front he =>
      rw [← List.head?_reverse, he] at h
      exact absurd rfl h
  case h_2 front he =>
      have := hs '\n' (by rw [← List.head?_reverse, he]; rfl)
      exact absurd this (by decide)
  case h_3 => rfl

theorem place_nil {c : Char} (hc : isBlank c = false) : place c [] = [c] := by
  rw [place, hc, Bool.false_and, if_neg Bool.false_ne_true]
  split
  case isTrue h =>
      rw [h]
      rfl
  case isFalse => rfl

theorem endsSolid_place {rest : List Char} (hn : rest ≠ []) (hs : EndsSolid rest) (c : Char) :
    place c rest ≠ [] ∧ EndsSolid (place c rest) := by
  rw [place]
  split
  case isTrue => exact ⟨hn, hs⟩
  case isFalse =>
      split
      case isTrue =>
          rw [placeClosing]
          split
          case h_1 inner hi =>
              refine ⟨by simp, ?_⟩
              by_cases hin : inner = []
              · rw [hin]
                decide
              · obtain ⟨g, k, -, -, rfl⟩ := afterReturns?_iff.1 hi
                rw [endsSolid_append hin] at hs ⊢
                exact hs
          case h_2 => exact ⟨by simp, (endsSolid_append (s := [')']) hn).2 hs⟩
      case isFalse => exact ⟨by simp, (endsSolid_append (s := [c]) hn).2 hs⟩

theorem endsSolid_spaceParens {s : List Char} (hn : s ≠ []) (hs : EndsSolid s) :
    spaceParens s ≠ [] ∧ EndsSolid (spaceParens s) := by
  match s with
  | c :: s =>
      rw [spaceParens_cons]
      by_cases hsn : s = []
      · have hc : isBlank c = false := by
          rw [hsn] at hs
          exact endsSolid_concat (s := []).1 hs
        have hif : (if c = '(' then trimStart s else s) = [] := by simp [hsn]
        rw [hif, spaceParens_nil, place_nil hc]
        exact ⟨by simp, endsSolid_concat (s := []).2 hc⟩
      · have hss := hs.of_cons
        have htn : trimStart s ≠ [] := fun h =>
          not_blank_of_endsSolid hsn hss (trimStart_eq_nil_iff.1 h)
        have hlt : (trimStart s).length ≤ s.length := (List.dropWhile_suffix _).length_le
        split
        case isTrue =>
            obtain ⟨h₁, h₂⟩ := endsSolid_spaceParens htn hss.trimStart
            exact endsSolid_place h₁ h₂ c
        case isFalse =>
            obtain ⟨h₁, h₂⟩ := endsSolid_spaceParens hsn hss
            exact endsSolid_place h₁ h₂ c
termination_by s.length
decreasing_by all_goals (simp only [List.length_cons]; omega)

theorem spaceFinalBrace_append {s t : List Char} (hs : EndsSolid s) (ht : t.getLast? = some '{') :
    spaceFinalBrace (s ++ t) = s ++ spaceFinalBrace t := by
  obtain ⟨f, rfl⟩ := List.getLast?_eq_some_iff.1 ht
  rw [← List.append_assoc, spaceFinalBrace_concat, spaceFinalBrace_concat,
    trimEnd_append_of_solid hs, List.append_assoc]

theorem getLast?_of_returnsLead {g h inner : List Char} (hg : Blank g) (hh : Blank h)
    (hl : (returnsLead g h ++ inner).getLast? = some '{') : inner.getLast? = some '{' := by
  by_cases hi : inner = []
  · rw [hi, List.append_nil] at hl
    rcases mem_returnsLead hg hh (List.mem_of_getLast? hl) with hb | hm
    · exact absurd hb (by decide)
    · exact absurd hm (by decide)
  · rwa [List.getLast?_append_of_ne_nil _ hi] at hl

theorem afterReturns?_spaceFinalBrace {s : List Char} (h : s.getLast? = some '{') :
    afterReturns? (spaceFinalBrace s) = (afterReturns? s).map spaceFinalBrace := by
  cases ha : afterReturns? s with
  | some inner =>
      obtain ⟨g, k, hg, hk, rfl⟩ := afterReturns?_iff.1 ha
      have hl := getLast?_of_returnsLead hg hk h
      rw [spaceFinalBrace_append (endsSolid_returnsLead g k) hl]
      exact afterReturns?_iff.2 ⟨g, k, hg, hk, rfl⟩
  | none =>
      apply Option.eq_none_iff_forall_ne_some.2
      intro inner hi
      obtain ⟨g, k, hg, hk, he⟩ := afterReturns?_iff.1 hi
      obtain ⟨f, rfl⟩ := List.getLast?_eq_some_iff.1 h
      obtain ⟨b, hb, hf⟩ := exists_trimEnd f
      rw [spaceFinalBrace_concat] at he
      have hlead : returnsLead g k <+: trimEnd f := by
        rcases List.append_eq_append_iff.1 he with ⟨a, ha, hrest⟩ | ⟨a, ha, -⟩
        · cases ha' : a.getLast? with
          | none =>
              rw [List.getLast?_eq_none_iff.1 ha', List.append_nil] at ha
              exact ha ▸ List.prefix_refl _
          | some c =>
              have hc : (returnsLead g k).getLast? = some c := by
                have hn : a ≠ [] := by rintro rfl; cases ha'
                rw [ha, List.getLast?_append_of_ne_nil _ hn, ha']
              rw [getLast?_returnsLead] at hc
              cases hc
              have : '(' ∈ " \x7b".toList := by
                rw [hrest]
                exact List.mem_append_left _ (List.mem_of_getLast? ha')
              exact absurd this (by decide)
        · exact ⟨a, ha.symm⟩
      obtain ⟨r, hr⟩ := hlead
      have : f ++ ['{'] = returnsLead g k ++ (r ++ b ++ ['{']) := by
        rw [hf, ← hr]
        simp only [List.append_assoc]
      rw [afterReturns?_iff.2 ⟨g, k, hg, hk, this⟩] at ha
      cases ha

theorem placeClosing_spaceFinalBrace {s : List Char} (h : s.getLast? = some '{') :
    spaceFinalBrace (placeClosing s) = placeClosing (spaceFinalBrace s) := by
  rw [placeClosing, placeClosing, afterReturns?_spaceFinalBrace h]
  cases ha : afterReturns? s with
  | none => exact spaceFinalBrace_append (s := [')']) (by decide) h
  | some inner =>
      have hl : inner.getLast? = some '{' := by
        obtain ⟨g, k, hg, hk, rfl⟩ := afterReturns?_iff.1 ha
        exact getLast?_of_returnsLead hg hk h
      exact spaceFinalBrace_append (by decide) hl

theorem any_isTight_trimEnd (s : List Char) :
    (trimEnd s ++ " \x7b".toList).head?.any isTight = (s ++ ['{']).head?.any isTight := by
  obtain ⟨g, hg, he⟩ := exists_trimEnd s
  by_cases hn : trimEnd s = []
  · rw [hn, List.nil_append] at he
    rw [hn, he]
    cases hg' : g with
    | nil => rfl
    | cons c g' =>
        rw [hg'] at hg
        have hc := (blank_cons.1 hg).1
        have : isTight c = false := by
          by_contra ht
          simp only [Bool.not_eq_false, isTight, Bool.or_eq_true, beq_iff_eq] at ht
          rcases ht with (rfl | rfl) | rfl <;> exact absurd hc (by decide)
        simp [this]
        decide
  · conv_rhs => rw [he]
    rw [List.append_assoc, List.head?_append_of_ne_nil _ hn, List.head?_append_of_ne_nil _ hn]

theorem spaceFinalBrace_place_solid {s : List Char} (hl : s.getLast? = some '{') {c : Char}
    (hc : isBlank c = false) :
    spaceFinalBrace (place c s) = placeInMethod c (spaceFinalBrace s) := by
  rw [place, placeInMethod, hc, Bool.false_and, if_neg Bool.false_ne_true, Bool.false_and,
    if_neg Bool.false_ne_true]
  split
  · exact placeClosing_spaceFinalBrace hl
  · exact spaceFinalBrace_append (s := [c]) (endsSolid_concat (s := []).2 hc) hl

theorem spaceFinalBrace_place_blank {s : List Char} (hl : s.getLast? = some '{') {c : Char}
    (hc : isBlank c) : spaceFinalBrace (place c s) = placeInMethod c (spaceFinalBrace s) := by
  obtain ⟨f, rfl⟩ := List.getLast?_eq_some_iff.1 hl
  have hclose : c ≠ ')' := by
    rintro rfl
    exact absurd hc (by decide)
  rw [place, placeInMethod, spaceFinalBrace_concat, any_isTight_trimEnd, hc, if_neg hclose,
    if_neg hclose]
  cases ht : (f ++ ['{']).head?.any isTight with
  | true => exact spaceFinalBrace_concat f
  | false =>
      rw [Bool.and_false, if_neg Bool.false_ne_true, ← List.cons_append, spaceFinalBrace_concat]
      by_cases hf : Blank f
      · rw [trimEnd_eq_nil_iff.2 hf, trimEnd_eq_nil_iff.2 (blank_cons.2 ⟨hc, hf⟩)]
        rfl
      · have hec : trimEnd (c :: f) = c :: trimEnd f := trimEnd_append_of_not_blank [c] hf
        have he : trimEnd f ++ " \x7b".toList ≠ " \x7b".toList := by
          rwa [ne_eq, List.append_left_eq_self, trimEnd_eq_nil_iff]
        rw [hec, decide_eq_false he]
        rfl

/-- No rule puts a brace at the end. -/
theorem getLast?_place_ne {s : List Char} (hn : s ≠ []) (hl : s.getLast? ≠ some '{') (c : Char) :
    (place c s).getLast? ≠ some '{' := by
  have hcons : ∀ d : Char, (d :: s).getLast? ≠ some '{' := fun d => by
    rwa [← List.singleton_append, List.getLast?_append_of_ne_nil _ hn]
  rw [place]
  split
  · exact hl
  · split
    · rw [placeClosing]
      split
      case h_1 inner hi =>
          obtain ⟨g, k, hg, hk, rfl⟩ := afterReturns?_iff.1 hi
          by_cases hin : inner = []
          · rw [hin]
            decide
          · rwa [List.getLast?_append_of_ne_nil _ hin] at hl ⊢
      case h_2 => exact hcons ')'
    · exact hcons c

theorem spaceFinalBrace_place {s : List Char} (hn : s ≠ []) (hs : EndsSolid s) (c : Char) :
    spaceFinalBrace (place c s) = placeInMethod c (spaceFinalBrace s) := by
  by_cases hl : s.getLast? = some '{'
  · cases hc : isBlank c with
    | false => exact spaceFinalBrace_place_solid hl hc
    | true => exact spaceFinalBrace_place_blank hl hc
  · have hb : s ≠ " \x7b".toList := by
      rintro rfl
      exact hl rfl
    have hp : placeInMethod c s = place c s := by
      rw [placeInMethod, place, decide_eq_false hb, Bool.or_false]
    rw [spaceFinalBrace_of_ne hs hl, hp,
      spaceFinalBrace_of_ne (endsSolid_place hn hs c).2 (getLast?_place_ne hn hl c)]

theorem spaceMethod_singleton {c : Char} (hc : isBlank c = false) :
    spaceMethod [c] = if c = '{' then " \x7b".toList else [c] := by
  have hif : (if c = '(' then trimStart [] else []) = ([] : List Char) := by simp
  rw [spaceMethod, spaceParens_cons, hif, spaceParens_nil, place_nil hc]
  split
  case isTrue h =>
      rw [h]
      rfl
  case isFalse h =>
      exact spaceFinalBrace_of_ne (endsSolid_concat (s := []).2 hc) (by simpa using h)

theorem spaceMethod_cons {s : List Char} (hn : s ≠ []) (hs : EndsSolid s) (c : Char) :
    spaceMethod (c :: s) =
      placeInMethod c (spaceMethod (if c = '(' then trimStart s else s)) := by
  have hrest : (if c = '(' then trimStart s else s) ≠ [] ∧
      EndsSolid (if c = '(' then trimStart s else s) := by
    split
    · exact ⟨fun h => not_blank_of_endsSolid hn hs (trimStart_eq_nil_iff.1 h), hs.trimStart⟩
    · exact ⟨hn, hs⟩
  obtain ⟨hp, he⟩ := endsSolid_spaceParens hrest.1 hrest.2
  rw [spaceMethod, spaceParens_cons, spaceFinalBrace_place hp he, ← spaceMethod]

theorem endsSolid_spaceMethod {s : List Char} (hn : s ≠ []) (hs : EndsSolid s) :
    spaceMethod s ≠ [] ∧ EndsSolid (spaceMethod s) := by
  obtain ⟨hp, he⟩ := endsSolid_spaceParens hn hs
  by_cases hl : (spaceParens s).getLast? = some '{'
  · obtain ⟨f, hf⟩ := List.getLast?_eq_some_iff.1 hl
    rw [spaceMethod, hf, spaceFinalBrace_concat]
    exact ⟨by simp, (endsSolid_append (by decide)).2 (by decide)⟩
  · rw [spaceMethod, spaceFinalBrace_of_ne he hl]
    exact ⟨hp, he⟩

theorem placeInMethod_of_solid {c : Char} (hb : isBlank c = false) (hc : c ≠ ')')
    (rest : List Char) : placeInMethod c rest = c :: rest := by
  rw [placeInMethod, hb, Bool.false_and, if_neg Bool.false_ne_true, if_neg hc]

theorem placeInMethod_closing (rest : List Char) :
    placeInMethod ')' rest = placeClosing rest := rfl

theorem startsSolid_spaceMethod {s : List Char} (hs : StartsSolid s) (he : EndsSolid s) :
    StartsSolid (spaceMethod s) ∨ spaceMethod s = " \x7b".toList := by
  cases s with
  | nil => exact .inl (by decide)
  | cons c s =>
      have hc := startsSolid_cons.1 hs
      by_cases hn : s = []
      · rw [hn, spaceMethod_singleton hc]
        split
        · exact .inr rfl
        · exact .inl hs
      · rw [spaceMethod_cons hn he.of_cons]
        apply Or.inl
        by_cases hp : c = ')'
        · rw [hp, placeInMethod_closing, placeClosing]
          split
          · exact (startsSolid_append (by decide)).2 (by decide)
          · exact startsSolid_cons.2 (by decide)
        · rw [placeInMethod_of_solid hc hp]
          exact startsSolid_cons.2 hc

/-- Text without marks stays as it is, white space inside it included. -/
theorem spaceMethod_append {w s : List Char} (hw : ∀ c ∈ w, isMark c = false) (hws : EndsSolid w)
    (hn : s ≠ []) (hs : EndsSolid s) : spaceMethod (w ++ s) = w ++ spaceMethod s := by
  induction w with
  | nil => rfl
  | cons c w ih =>
      obtain ⟨hc, hw⟩ := List.forall_mem_cons.1 hw
      have hopen : c ≠ '(' := by rintro rfl; cases hc
      have hclose : c ≠ ')' := by rintro rfl; cases hc
      rw [List.cons_append, spaceMethod_cons (by simp [hn]) ((endsSolid_append hn).2 hs),
        if_neg hopen, ih hw hws.of_cons, placeInMethod, if_neg hclose]
      apply if_neg
      intro h
      simp only [Bool.and_eq_true, Bool.or_eq_true, decide_eq_true_eq] at h
      obtain ⟨hb, h⟩ := h
      cases w with
      | nil =>
          rw [hws c rfl] at hb
          cases hb
      | cons d w =>
          have hd := (List.forall_mem_cons.1 hw).1
          rcases h with ht | he
          · simp only [List.cons_append, List.head?_cons, Option.any_some, isTight, Bool.or_eq_true,
              beq_iff_eq] at ht
            rcases ht with (rfl | rfl) | rfl <;> cases hd
          · change d :: (w ++ spaceMethod s) = [' ', '{'] at he
            obtain ⟨hspace, he⟩ := List.cons.inj he
            cases w with
            | nil =>
                have := hws.of_cons d rfl
                rw [hspace] at this
                cases this
            | cons e w =>
                obtain ⟨hbrace, -⟩ := List.cons.inj he
                rw [hbrace] at hw
                simp [isMark] at hw

theorem spaceMethod_word_append {w s : List Char} (hw : ∀ c ∈ w, isWord c) (hn : s ≠ [])
    (hs : EndsSolid s) : spaceMethod (w ++ s) = w ++ spaceMethod s :=
  spaceMethod_append (fun c hc => isMark_of_isWord (hw c hc))
    (fun c hc => isBlank_of_isWord (hw c (List.mem_of_getLast? hc))) hn hs

theorem spaceMethod_blank_append {g s : List Char} (hg : Blank g) (hn : s ≠ []) (hs : EndsSolid s)
    (h : (spaceMethod s).head?.any isTight ∨ spaceMethod s = " \x7b".toList) :
    spaceMethod (g ++ s) = spaceMethod s := by
  induction g with
  | nil => rfl
  | cons c g ih =>
      obtain ⟨hc, hg⟩ := blank_cons.1 hg
      have hopen : c ≠ '(' := by rintro rfl; exact absurd hc (by decide)
      rw [List.cons_append, spaceMethod_cons (by simp [hn]) ((endsSolid_append hn).2 hs),
        if_neg hopen, ih hg, placeInMethod, hc, Bool.true_and]
      exact if_pos (by simpa only [Bool.or_eq_true, decide_eq_true_eq] using h)

theorem spaceMethod_of_append {w s : List Char} (hw : ∀ c ∈ w, c ≠ '(' ∧ c ≠ ')')
    (hm : '(' ∈ s) (hs : EndsSolid s) (h : spaceMethod (w ++ s) = w ++ s) :
    spaceMethod s = s := by
  have hn : s ≠ [] := List.ne_nil_of_mem hm
  induction w with
  | nil => exact h
  | cons c w ih =>
      obtain ⟨⟨hopen, hclose⟩, hw⟩ := List.forall_mem_cons.1 hw
      rw [List.cons_append, spaceMethod_cons (by simp [hn]) ((endsSolid_append hn).2 hs),
        if_neg hopen, placeInMethod, if_neg hclose] at h
      split at h
      case isTrue hd =>
          rw [h] at hd
          simp only [Bool.and_eq_true, Bool.or_eq_true, decide_eq_true_eq] at hd
          obtain ⟨hb, ht | he⟩ := hd
          · simp only [List.head?_cons, Option.any_some, isTight, Bool.or_eq_true,
              beq_iff_eq] at ht
            rcases ht with (rfl | rfl) | rfl <;> exact absurd hb (by decide)
          · have : '(' ∈ c :: (w ++ s) := by simp [hm]
            rw [he] at this
            exact absurd this (by decide)
      case isFalse => exact ih hw (List.cons.inj h).2

theorem spaceMethod_returns {inner : List Char} (hs : EndsSolid ('(' :: inner))
    (h : spaceMethod ('(' :: inner) = '(' :: inner) :
    spaceMethod (") returns (".toList ++ inner) = ") returns (".toList ++ inner := by
  have hn : '(' :: inner ≠ [] := by simp
  have space : spaceMethod (' ' :: '(' :: inner) = '(' :: inner := by
    rw [spaceMethod_cons hn hs, if_neg (by decide), h]
    rfl
  have hs' : EndsSolid (' ' :: '(' :: inner) := (endsSolid_append (s := [' ']) hn).2 hs
  have word := spaceMethod_word_append (w := "returns".toList) (by decide) (by simp) hs'
  rw [space] at word
  have hs'' : EndsSolid ("returns".toList ++ ' ' :: '(' :: inner) :=
    (endsSolid_append (by simp)).2 hs'
  have spaced := spaceMethod_cons (by simp) hs'' ' '
  rw [if_neg (by decide), word] at spaced
  have full := spaceMethod_cons (by simp) ((endsSolid_append (s := [' ']) (by simp)).2 hs'') ')'
  rw [if_neg (by decide), List.singleton_append, spaced] at full
  exact full.trans (by rfl)

theorem no_parens_of_returns {g h : List Char} (hg : Blank g) (hh : Blank h) :
    ∀ c ∈ g ++ ("returns".toList ++ h), c ≠ '(' ∧ c ≠ ')' := by
  have hblank : ∀ {c : Char}, isBlank c → c ≠ '(' ∧ c ≠ ')' := by
    intro c hc
    refine ⟨?_, ?_⟩ <;> rintro rfl <;> exact absurd hc (by decide)
  have hword : ∀ c ∈ "returns".toList, c ≠ '(' ∧ c ≠ ')' := by decide
  intro c hc
  simp only [List.mem_append] at hc
  rcases hc with hc | hc | hc
  · exact hblank (hg c hc)
  · exact hword c hc
  · exact hblank (hh c hc)

/-- Spaced text with a closing parenthesis in front, and what belongs between it and a response. -/
theorem spaceMethod_placeClosing {rest : List Char} (hn : rest ≠ []) (hs : EndsSolid rest)
    (hfix : spaceMethod rest = rest) : spaceMethod (placeClosing rest) = placeClosing rest := by
  cases ha : afterReturns? rest with
  | none =>
      have hp : placeClosing rest = ')' :: rest := by rw [placeClosing, ha]
      rw [hp, spaceMethod_cons hn hs, if_neg (by decide), hfix, placeInMethod_closing, hp]
  | some inner =>
      have hp : placeClosing rest = ") returns (".toList ++ inner := by rw [placeClosing, ha]
      obtain ⟨g, k, hg, hk, he⟩ := afterReturns?_eq_some_iff.1 ha
      have hrest : rest = (g ++ ("returns".toList ++ k)) ++ '(' :: inner := by
        rw [he]
        simp only [List.append_assoc]
      rw [hrest, endsSolid_append (by simp)] at hs
      rw [hrest] at hfix
      have hinner :=
        spaceMethod_of_append (no_parens_of_returns hg hk) (List.mem_cons_self ..) hs hfix
      rw [hp, spaceMethod_returns hs hinner]

theorem spaceMethod_placeInMethod {rest : List Char} {c : Char} (hn : rest ≠ [])
    (hs : EndsSolid rest) (hfix : spaceMethod rest = rest)
    (hopen : c = '(' → StartsSolid rest ∨ rest = " \x7b".toList) :
    spaceMethod (placeInMethod c rest) = placeInMethod c rest := by
  by_cases hc : c = ')'
  · rw [hc, placeInMethod_closing]
    exact spaceMethod_placeClosing hn hs hfix
  · have hp : placeInMethod c rest = rest ∨ placeInMethod c rest = c :: rest := by
      rw [placeInMethod, if_neg hc]
      split
      · exact .inl rfl
      · exact .inr rfl
    rcases hp with hp | hp
    · rw [hp, hfix]
    · rw [hp, spaceMethod_cons hn hs]
      have hrest : spaceMethod (if c = '(' then trimStart rest else rest) = rest := by
        split
        case isTrue h =>
            rcases hopen h with hr | hr
            · rw [hr.trimStart, hfix]
            · rw [hr]
              rfl
        case isFalse => exact hfix
      rw [hrest, hp]

theorem spaceMethod_spaceMethod {s : List Char} (hs : EndsSolid s) :
    spaceMethod (spaceMethod s) = spaceMethod s := by
  match s with
  | [] => rfl
  | c :: s =>
      by_cases hn : s = []
      · have hc : isBlank c = false := by
          rw [hn] at hs
          exact endsSolid_concat (s := []).1 hs
        rw [hn, spaceMethod_singleton hc]
        split
        · rfl
        case isFalse h => rw [spaceMethod_singleton hc, if_neg h]
      · have hss := hs.of_cons
        have htn : trimStart s ≠ [] := fun h =>
          not_blank_of_endsSolid hn hss (trimStart_eq_nil_iff.1 h)
        have hlt : (trimStart s).length ≤ s.length := (List.dropWhile_suffix _).length_le
        rw [spaceMethod_cons hn hss]
        split
        case isTrue hc =>
            obtain ⟨h₁, h₂⟩ := endsSolid_spaceMethod htn hss.trimStart
            exact spaceMethod_placeInMethod h₁ h₂ (spaceMethod_spaceMethod hss.trimStart)
              fun _ => startsSolid_spaceMethod (startsSolid_trimStart s) hss.trimStart
        case isFalse hc =>
            obtain ⟨h₁, h₂⟩ := endsSolid_spaceMethod hn hss
            exact spaceMethod_placeInMethod h₁ h₂ (spaceMethod_spaceMethod hss)
              fun h => absurd h hc
termination_by s.length
decreasing_by all_goals (simp only [List.length_cons]; omega)

end SchemaLint.Layout
