import SchemaLint.Proofs.Layout.Shown

/-! Indentation. A reader who counts opening and closing lines from the top, and who sees nothing
but the output, knows the indentation of every line. -/

namespace SchemaLint.Layout
open SchemaLint.Text SchemaLint.Line

/-- What a reader of indented text keeps: the depth counted so far, and whether a block comment is
open. -/
structure Margin where
  depth : Nat := 0
  inComment : Bool := false
  deriving DecidableEq

namespace Margin

/-- The depth that a trimmed line stands at. A closing brace outside comments stands one level
further out than what precedes it. -/
def depthOf (m : Margin) (t : List Char) : Nat :=
  if commentLine m.inComment t then m.depth
  else if isClosingLine t then m.depth - 1
  else m.depth

/-- What the reader keeps after a trimmed line. Comments change no depth, a closing brace takes one
level off, and any other line adds one if its code ends in an opening brace. -/
def after (m : Margin) (t : List Char) : Margin where
  depth :=
    if commentLine m.inComment t then m.depth
    else if isClosingLine t then m.depth - 1
    else if (code t).getLast? = some '{' then m.depth + 1
    else m.depth
  inComment := blockAfter m.inComment t

end Margin

/-- Every line that is not blank is indented by two spaces for each level that the lines above it
lead to, and by nothing else. -/
def Indented : Margin → List (List Char) → Prop
  | _, [] => True
  | m, l :: ls =>
    (trim l ≠ [] → l.takeWhile isBlank = List.replicate (2 * m.depthOf (trim l)) ' ') ∧
      Indented (m.after (trim l)) ls

instance decidableIndented (m : Margin) (ls : List (List Char)) : Decidable (Indented m ls) :=
  match ls with
  | [] => inferInstanceAs (Decidable True)
  | l :: ls =>
    have := decidableIndented (m.after (trim l)) ls
    inferInstanceAs (Decidable ((trim l ≠ [] → _) ∧ _))

theorem Margin.after_nil (m : Margin) : m.after [] = m := by
  obtain ⟨d, b⟩ := m
  cases b <;> rfl

theorem Margin.comment {d : Nat} {b : Bool} {t : List Char} (h : commentLine b t) :
    depthOf ⟨d, b⟩ t = d ∧ after ⟨d, b⟩ t = ⟨d, blockAfter b t⟩ := by
  simp only [depthOf, after, if_pos h, and_self]

theorem Margin.close {d : Nat} {t : List Char} (h : isClosingLine t) :
    depthOf ⟨d, false⟩ t = d - 1 ∧ after ⟨d, false⟩ t = ⟨d - 1, false⟩ := by
  have hc := commentLine_closing h
  obtain ⟨s, rfl⟩ := isClosingLine_head h
  have hb : opensBlock ('}' :: s) = false := rfl
  simp only [depthOf, after, hc, h, Bool.false_eq_true, if_false, if_true, true_and,
    blockAfter_of_no_block hb]

theorem Margin.code {t : Token} (h : t.ShowsCode) (hnl : '\n' ∉ t.text) :
    depthOf ⟨t.depth, false⟩ (trim t.text) = t.depth ∧
      after ⟨t.depth, false⟩ (trim t.text) = ⟨t.next, false⟩ := by
  have hdeep : t.deepens = decide ((Line.code t.text).getLast? = some '{') := by
    rw [Token.deepens, decide_eq_true h.noCommentToken, Bool.true_and]
  simp only [depthOf, after, h.noComment, h.noClose, Bool.false_eq_true, if_false, true_and,
    code_trim hnl, blockAfter_of_no_block (opensBlock_of_commentLine h.noComment), Token.next,
    hdeep, decide_eq_true_eq]

theorem takeWhile_line {t : Token} (h : StartsSolid t.text) (hn : trim t.line ≠ []) :
    t.line.takeWhile isBlank = List.replicate (2 * t.depth) ' ' := by
  have ht : t.text ≠ [] := by
    intro ht
    rw [Token.line_eq_nil_iff.2 ht] at hn
    exact hn rfl
  have hrest : t.text.takeWhile isBlank = [] := by
    obtain ⟨c, s, he⟩ := List.exists_cons_of_ne_nil ht
    rw [he] at h ⊢
    rw [List.takeWhile_cons, startsSolid_cons.1 h]
    rfl
  rw [Token.line, if_neg ht, List.takeWhile_append_of_pos (blank_replicate _), hrest,
    List.append_nil]

theorem indented_blank {m : Margin} {ls : List (List Char)} :
    Indented m ([] :: ls) ↔ Indented m ls := by
  rw [Indented, trim_nil, Margin.after_nil]
  exact and_iff_right fun h => absurd rfl h

theorem indented_linesAfter_cons {m : Margin} {prev : Option Token} {t : Token} {ts : List Token} :
    Indented m (linesAfter prev (t :: ts)) ↔ Indented m (t.line :: linesAfter (some t) ts) := by
  rw [linesAfter_cons]
  split
  case isTrue => exact indented_blank
  case isFalse => exact Iff.rfl

/-- A token stands where the reader expects it, so the rest decides. -/
theorem indented_token {m : Margin} {prev : Option Token} {t : Token} {ts : List Token}
    (hs : StartsSolid t.text) (hd : m.depthOf (trim t.text) = t.depth)
    (h : Indented (m.after (trim t.text)) (linesAfter (some t) ts)) :
    Indented m (linesAfter prev (t :: ts)) := by
  rw [indented_linesAfter_cons, Indented, Token.trim_line, hd]
  refine ⟨?_, h⟩
  intro hn
  rw [← Token.trim_line] at hn
  exact takeWhile_line hs hn

theorem Shown.indented {d : Nat} {b : Bool} {ts : List Token} (h : Shown d b ts)
    (hnl : ∀ t ∈ ts, '\n' ∉ t.text) (prev : Option Token) :
    Indented ⟨d, b⟩ (linesAfter prev ts) := by
  induction h generalizing prev with
  | done => trivial
  | @comment d b t ts hc ht _ ih =>
      obtain ⟨hdepth, hafter⟩ := Margin.comment (d := d) hc
      have hrest := ih (List.forall_mem_cons.1 hnl).2 (some ⟨t, d, .comment⟩)
      refine indented_token (ht ▸ startsSolid_trim t) ?_ ?_
      · rw [ht, hdepth]
      · rw [ht, hafter]
        exact hrest
  | @close d t ts hc ht _ ih =>
      obtain ⟨hdepth, hafter⟩ := Margin.close (d := d) hc
      have hrest := ih (List.forall_mem_cons.1 hnl).2 (some ⟨t, d - 1, .close⟩)
      refine indented_token (ht ▸ startsSolid_trim t) ?_ ?_
      · rw [ht, hdepth]
      · rw [ht, hafter]
        exact hrest
  | @code t ts hcode _ ih =>
      obtain ⟨ht, hts⟩ := List.forall_mem_cons.1 hnl
      obtain ⟨hdepth, hafter⟩ := Margin.code hcode ht
      refine indented_token hcode.solid hdepth ?_
      rw [hafter]
      exact ih hts (some t)

theorem indented_append {m : Margin} {ls ks : List (List Char)} :
    Indented m (ls ++ ks) ↔
      Indented m ls ∧ Indented (ls.foldl (fun m l => m.after (trim l)) m) ks := by
  induction ls generalizing m with
  | nil => exact (and_iff_right trivial).symm
  | cons l ls ih => rw [List.cons_append, Indented, ih, Indented, and_assoc, List.foldl_cons]

/-- The indentation of the output can be told from the output alone: counting from the top, each
line stands at the depth that the lines above it lead to. -/
theorem indented_format (x : List Char) : Indented {} (Source.lines (Source.format x)) := by
  apply Exists.elim (exists_reads 0 false (Source.lines x))
  intro ts h
  rw [h.lines_format, indented_append]
  obtain ⟨n, hn⟩ := exists_dropFinalBlanks (linesAfter none ts)
  have hnl := h.no_newline fun l => no_newline_of_mem_lines
  have hall := h.shown.indented hnl none
  rw [hn, indented_append] at hall
  exact ⟨hall.1, indented_blank.2 trivial⟩

/-- A line that stands further out or further in than the lines above it lead to is told. -/
example : ¬ Indented {} ["message A \x7b".toList, " int32 a = 1;".toList] := by decide

end SchemaLint.Layout
