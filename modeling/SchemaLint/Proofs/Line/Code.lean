import SchemaLint.Line.Comment

/-! Code outside comments, as both passes over a source read it: the lines of block comments and
the lines that are comments as a whole hold none, and any other line holds what stands before its
trailing comment. -/

namespace SchemaLint.Line
open SchemaLint.Text

/-- The code that a line holds, from inside a block comment or outside. -/
def codeOf (inComment : Bool) (l : List Char) : List Char :=
  if inComment || isComment (trim l) then [] else code (trim l)

/-- Whether a block comment is open after the lines. -/
def blockAfterAll (inComment : Bool) (ls : List (List Char)) : Bool :=
  ls.foldl (fun b l => blockAfter b (trim l)) inComment

/-- The code that the lines hold, one after another. -/
def codeOfAll : Bool → List (List Char) → List Char
  | _, [] => []
  | inComment, l :: ls => codeOf inComment l ++ codeOfAll (blockAfter inComment (trim l)) ls

/-- The source has a line of that number, counted from one. -/
def Numbered (ls : List (List Char)) (n : Nat) : Prop :=
  ∃ l, (l, n) ∈ ls.zipIdx 1

/-- A line is inside a block comment, blank, a comment as a whole, or code. -/
theorem line_cases (inComment : Bool) (l : List Char) :
    inComment = true ∨ trim l = [] ∨ inComment = false ∧ isComment (trim l) ∨
      inComment = false ∧ trim l ≠ [] ∧ isComment (trim l) = false := by
  cases inComment with
  | true => exact .inl rfl
  | false =>
      by_cases hl : trim l = []
      · exact .inr (.inl hl)
      · cases hc : isComment (trim l) with
        | true => exact .inr (.inr (.inl ⟨rfl, rfl⟩))
        | false => exact .inr (.inr (.inr ⟨rfl, hl, rfl⟩))

/-- Lines that are numbered from `n` on get the numbers from `m` on. -/
theorem zipIdx_renumber {f : Nat → Nat} {n m : Nat} {ls : List (List Char)}
    (h : ∀ i < ls.length, f (n + i) = m + i) :
    (ls.zipIdx n).map (Prod.map id f) = ls.zipIdx m := by
  induction ls generalizing n m with
  | nil => rfl
  | cons l ls ih =>
      have hrest : ∀ i < ls.length, f (n + 1 + i) = m + 1 + i := by
        intro i hi
        have := h (i + 1) (Nat.succ_lt_succ hi)
        rwa [Nat.add_assoc, Nat.add_comm 1 i, Nat.add_assoc m, Nat.add_comm 1 i]
      rw [List.zipIdx_cons, List.zipIdx_cons, List.map_cons, ih hrest]
      have hfirst : f n = m := h 0 (Nat.zero_lt_succ _)
      rw [Prod.map_apply, id_eq, hfirst]

theorem blockAfterAll_append (b : Bool) (ls ks : List (List Char)) :
    blockAfterAll b (ls ++ ks) = blockAfterAll (blockAfterAll b ls) ks :=
  List.foldl_append

theorem codeOf_true (l : List Char) : codeOf true l = [] := rfl

theorem codeOf_comment {b : Bool} {l : List Char} (h : isComment (trim l)) : codeOf b l = [] := by
  rw [codeOf, h, Bool.or_true]
  rfl

theorem codeOf_code {l : List Char} (h : isComment (trim l) = false) :
    codeOf false l = code (trim l) := by
  rw [codeOf, h]
  rfl

theorem codeOf_blank {b : Bool} {l : List Char} (h : trim l = []) : codeOf b l = [] := by
  rw [codeOf, h]
  cases b <;> rfl

theorem outside_of_codeOf {b : Bool} {l : List Char} (h : codeOf b l ≠ []) :
    b = false ∧ trim l ≠ [] ∧ isComment (trim l) = false := by
  refine ⟨eq_false_of_ne_true fun hb => h ?_, fun hl => h (codeOf_blank hl),
    eq_false_of_ne_true fun hc => h (codeOf_comment hc)⟩
  rw [hb, codeOf_true]

end SchemaLint.Line
