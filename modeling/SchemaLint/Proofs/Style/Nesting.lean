import SchemaLint.Proofs.Line.Code
import SchemaLint.Proofs.Style.Checks

/-! The depth of braces in the style pass: the opening braces of the code less the closing ones,
whatever else the lines hold. -/

namespace SchemaLint.Style
open SchemaLint.Text SchemaLint.Line

/-- Two states at the same depth, both inside a block comment or both outside. -/
structure SamePlace (s t : State) : Prop where
  depth : s.depth = t.depth
  inComment : s.inComment = t.inComment

theorem SamePlace.trans {s t u : State} (h : SamePlace s t) (k : SamePlace t u) :
    SamePlace s u :=
  ⟨h.depth.trans k.depth, h.inComment.trans k.inComment⟩

theorem samePlace_readEnum (s : State) (line : Nat) (trimmed : List Char) :
    SamePlace (s.readEnum line trimmed).1 s := by
  obtain ⟨e, digits, h⟩ := readEnum_changes s line trimmed
  rw [h]
  exact ⟨rfl, rfl⟩

theorem samePlace_readService (s : State) (line : Nat) (trimmed : List Char) :
    SamePlace (s.readService line trimmed).1 s := by
  obtain ⟨depth, h⟩ := readService_changes s line trimmed
  rw [h]
  exact ⟨rfl, rfl⟩

def rise (code : List Char) : Int :=
  code.count '{' - code.count '}'

theorem rise_append (s t : List Char) : rise (s ++ t) = rise s + rise t := by
  simp only [rise, List.count_append]
  omega

theorem brace_place (s : State) (c : Char) :
    (s.brace c).1.depth = s.depth + rise [c] ∧ (s.brace c).1.inComment = s.inComment := by
  unfold State.brace
  split
  case isTrue h =>
      subst h
      exact ⟨rfl, rfl⟩
  case isFalse hopen =>
      split
      case isTrue h =>
          subst h
          have hplace : ∀ t : State, t.depth = s.depth - 1 → t.inComment = s.inComment →
              t.depth = s.depth + rise ['}'] ∧ t.inComment = s.inComment :=
            fun t hd hc => ⟨hd, hc⟩
          dsimp only
          split
          · split <;> exact hplace _ rfl rfl
          · exact hplace _ rfl rfl
      case isFalse hclose =>
          have hrise : rise [c] = 0 := by
            rw [rise, List.count_eq_zero.2 (by simpa using Ne.symm hopen),
              List.count_eq_zero.2 (by simpa using Ne.symm hclose)]
            rfl
          exact ⟨by rw [hrise, Int.add_zero], rfl⟩

theorem run_brace_place (s : State) (code : List Char) :
    (Pass.run State.brace s code).1.depth = s.depth + rise code ∧
      (Pass.run State.brace s code).1.inComment = s.inComment := by
  induction code generalizing s with
  | nil => exact ⟨(Int.add_zero _).symm, rfl⟩
  | cons c code ih =>
      obtain ⟨hd, hc⟩ := ih (s.brace c).1
      obtain ⟨hbd, hbc⟩ := brace_place s c
      rw [Pass.run_cons, ← List.singleton_append, rise_append]
      exact ⟨by rw [hd, hbd, Int.add_assoc], hc.trans hbc⟩

theorem readBraces_place (s : State) (l : List Char) :
    (s.readBraces (trim l)).1.depth = s.depth + rise (codeOf false l) ∧
      (s.readBraces (trim l)).1.inComment = s.inComment := by
  unfold State.readBraces
  split
  case isTrue h =>
      rw [codeOf_comment h]
      exact ⟨(Int.add_zero _).symm, rfl⟩
  case isFalse h =>
      rw [codeOf_code (eq_false_of_ne_true h)]
      exact run_brace_place ..

theorem step_place (s : State) (l : List Char) (line : Nat) :
    (step s (l, line)).1.depth = s.depth + rise (codeOf s.inComment l) ∧
      (step s (l, line)).1.inComment = blockAfter s.inComment (trim l) := by
  unfold step
  dsimp only
  split
  case isTrue h =>
      rw [h, codeOf_true]
      exact ⟨(Int.add_zero _).symm, rfl⟩
  case isFalse h =>
      rw [eq_false_of_ne_true h]
      -- every reader in between keeps the place
      have hplace := (samePlace_readService
        (({ s with inComment := blockAfter false (trim l) }.noteHeader line (trim l)).readEnum line
          (trim l)).1 line (trim l)).trans (samePlace_readEnum _ line (trim l))
      obtain ⟨hd, hc⟩ := readBraces_place
        ((({ s with inComment := blockAfter false (trim l) }.noteHeader line (trim l)).readEnum line
          (trim l)).1.readService line (trim l)).1 l
      exact ⟨by rw [hd, hplace.depth]; rfl, by rw [hc, hplace.inComment]; rfl⟩

theorem scan_cons (s : State) (l : List Char) (ls : List (List Char)) (n : Nat) :
    scan s ((l :: ls).zipIdx n) =
      ((scan (step s (l, n)).1 (ls.zipIdx (n + 1))).1,
        (step s (l, n)).2 ++ (scan (step s (l, n)).1 (ls.zipIdx (n + 1))).2) :=
  Pass.run_zipIdx_cons ..

theorem scan_place (s : State) (ls : List (List Char)) (n : Nat) :
    (scan s (ls.zipIdx n)).1.depth = s.depth + rise (codeOfAll s.inComment ls) ∧
      (scan s (ls.zipIdx n)).1.inComment = blockAfterAll s.inComment ls := by
  induction ls generalizing s n with
  | nil => exact ⟨(Int.add_zero _).symm, rfl⟩
  | cons l ls ih =>
      obtain ⟨hd, hc⟩ := ih (step s (l, n)).1 (n + 1)
      obtain ⟨hsd, hsc⟩ := step_place s l n
      rw [hsc] at hd hc
      rw [scan_cons, codeOfAll, rise_append]
      exact ⟨by rw [hd, hsd, Int.add_assoc], hc⟩

end SchemaLint.Style
