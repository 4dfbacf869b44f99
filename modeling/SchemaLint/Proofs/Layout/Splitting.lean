import SchemaLint.Proofs.Layout.Reading

/-! Closing braces on lines of their own. A line that is a statement and the closing brace after it
becomes two lines, and every other line stays as it is. Neither of the two is such a line again, and
neither starts a comment, so splitting once is enough. -/

namespace SchemaLint.Layout
open SchemaLint.Text SchemaLint.Line

/-- The text is `p` and a closing brace; `p` has no braces and ends in a semicolon, white space
aside. -/
structure EndsInCloser (t p closer : List Char) : Prop where
  text : t = p ++ closer
  noOpen : '{' ∉ p
  noClose : '}' ∉ p
  semicolon : (trimEnd p).getLast? = some ';'
  closer : closer = ['}'] ∨ closer = ['}', ';']

/-- From inside a block comment or outside, some lines become some others. -/
inductive Splits : Bool → List (List Char) → List (List Char) → Prop
  | done {b : Bool} : Splits b [] []
  | split {l p closer : List Char} {ls out : List (List Char)} :
      isComment (trim l) = false → EndsInCloser (trim l) p closer → Splits false ls out →
      Splits false (l :: ls) (trimEnd p :: closer :: out)
  | whole {b : Bool} {l : List Char} {ls out : List (List Char)} :
      (b = false → isComment (trim l) = false → ∀ p closer, ¬ EndsInCloser (trim l) p closer) →
      Splits (blockAfter b (trim l)) ls out → Splits b (l :: ls) (l :: out)

variable {t p l statement closer : List Char}

theorem EndsInCloser.statementAndCloser? (h : EndsInCloser t p closer) :
    statementAndCloser? t = some (trimEnd p, closer) := by
  obtain ⟨g, hg, hp⟩ := exists_trimEnd p
  have hsub : trimEnd p ⊆ p := (trimEnd_isPrefix p).subset
  have hcloser : isCloser closer := by
    obtain rfl | rfl := h.closer <;> rfl
  refine statementAndCloser?_eq_some_iff.2 ⟨g, hg, ?_, fun hm => h.noOpen (hsub hm),
    fun hm => h.noClose (hsub hm), h.semicolon, hcloser⟩
  rw [← List.append_assoc, ← hp]
  exact h.text

theorem exists_endsInCloser (h : Layout.statementAndCloser? t = some (statement, closer)) :
    ∃ p, EndsInCloser t p closer ∧ trimEnd p = statement := by
  obtain ⟨g, hg, he, ho, hk, hl, hc⟩ := statementAndCloser?_eq_some_iff.1 h
  have hend : trimEnd (statement ++ g) = statement := by
    rw [trimEnd_append hg]
    exact (EndsSolid.of_getLast? hl (by decide)).trimEnd
  refine ⟨statement ++ g, ⟨?_, ?_, ?_, ?_, closer_cases hc⟩, hend⟩
  · rw [he, List.append_assoc]
  · exact List.not_mem_append ho (hg.not_mem (by decide))
  · exact List.not_mem_append hk (hg.not_mem (by decide))
  · rw [hend]
    exact hl

theorem statementAndCloser?_eq_none_iff :
    Layout.statementAndCloser? t = none ↔ ∀ p closer, ¬ EndsInCloser t p closer := by
  constructor
  · intro h p closer hp
    rw [hp.statementAndCloser?] at h
    cases h
  · intro h
    cases hs : Layout.statementAndCloser? t with
    | none => rfl
    | some r =>
        obtain ⟨p, hp, -⟩ := exists_endsInCloser hs
        exact absurd hp (h p r.2)

theorem splitCloser_whole {b : Bool}
    (h : b = false → isComment (trim l) = false → ∀ p closer, ¬ EndsInCloser (trim l) p closer) :
    splitCloser b l = (blockAfter b (trim l), [l]) := by
  refine Prod.ext rfl (splitCloser_of_whole ?_)
  cases b with
  | true => exact .inl rfl
  | false =>
      cases hc : isComment (trim l) with
      | true => exact .inr (.inl rfl)
      | false => exact .inr (.inr (statementAndCloser?_eq_none_iff.2 (h rfl hc)))

theorem splits_run (b : Bool) (ls : List (List Char)) :
    Splits b ls (Pass.run splitCloser b ls).2 := by
  induction ls generalizing b with
  | nil => exact .done
  | cons l ls ih =>
      rw [Pass.run_cons]
      by_cases h : b = false ∧ isComment (trim l) = false ∧
          ∃ p closer, EndsInCloser (trim l) p closer
      · obtain ⟨rfl, hc, p, closer, hp⟩ := h
        rw [splitCloser_of_split hc hp.statementAndCloser?]
        exact .split hc hp (ih false)
      · have hwhole : b = false → isComment (trim l) = false →
            ∀ p closer, ¬ EndsInCloser (trim l) p closer :=
          fun hb hc p closer hp => h ⟨hb, hc, p, closer, hp⟩
        rw [splitCloser_whole hwhole]
        exact .whole hwhole (ih _)

theorem Splits.eq_run {b : Bool} {ls out : List (List Char)} (h : Splits b ls out) :
    (Pass.run splitCloser b ls).2 = out := by
  induction h with
  | done => rfl
  | split hc hp _ ih =>
      rw [Pass.run_cons, splitCloser_of_split hc hp.statementAndCloser?, ih]
      rfl
  | whole hwhole _ ih =>
      rw [Pass.run_cons, splitCloser_whole hwhole, ih]
      rfl

theorem splitClosers_eq_iff {ls out : List (List Char)} :
    splitClosers ls = out ↔ Splits false ls out := by
  constructor
  · rintro rfl
    exact splits_run false ls
  · exact Splits.eq_run

/-- A line that is code, and no closing brace after a statement, stays as it is. -/
theorem Splits.code {ls out : List (List Char)} (hb : opensBlock (trim l) = false)
    (hs : Layout.statementAndCloser? (trim l) = none) (h : Splits false ls out) :
    Splits false (l :: ls) (l :: out) := by
  refine .whole (fun _ _ => statementAndCloser?_eq_none_iff.1 hs) ?_
  rw [blockAfter, hb]
  exact h

theorem Splits.again {b : Bool} {ls out : List (List Char)} (h : Splits b ls out) :
    Splits b out out := by
  induction h with
  | done => exact .done
  | @split l p closer ls out hc hp _ ih =>
      obtain ⟨hstatement, hcode, hcloser, hclosing⟩ := isCode_of_split hc hp.statementAndCloser?
      have hnone : Layout.statementAndCloser? (trim (trimEnd p)) = none := by
        rw [hstatement]
        exact statementAndCloser?_of_no_brace fun hm =>
          hp.noClose ((trimEnd_isPrefix p).subset hm)
      -- The statement has no closing brace, and the closing brace no statement.
      refine .code hcode.noBlock hnone (.code ?_ ?_ ih)
      · obtain ⟨r, rfl⟩ := isClosingLine_head hclosing
        rw [hcloser]
        rfl
      · rw [hcloser]
        exact statementAndCloser?_of_closing hclosing
  | whole hwhole _ ih => exact .whole hwhole ih

/-- Exactly the lines of code that are a statement and its closing brace are split, and the lines
that come out are not split again. -/
theorem splitClosers_splits_once (ls : List (List Char)) :
    (∀ out, splitClosers ls = out ↔ Splits false ls out) ∧
      splitClosers (splitClosers ls) = splitClosers ls := by
  have hsplits : Splits false ls (splitClosers ls) := splits_run false ls
  exact ⟨fun _ => splitClosers_eq_iff, hsplits.again.eq_run⟩

example : splitClosers ["  string id = 1; \x7d".toList, "// string id = 1; \x7d".toList] =
    ["string id = 1;".toList, ['}'], "// string id = 1; \x7d".toList] := by
  decide

end SchemaLint.Layout
