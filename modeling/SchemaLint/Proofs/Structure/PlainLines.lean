import SchemaLint.Proofs.Structure.Checks
import SchemaLint.Proofs.Structure.Renumbering

/-! Lines that are about no block. Such a line leaves the open blocks as they are and an opener
without its brace, whatever it says; so what is wrong with it stays with it. -/

namespace SchemaLint.Structure
open SchemaLint.Text SchemaLint.Line

/-- A line of code without braces that opens no block. -/
structure Plain (inComment : Bool) (l : List Char) : Prop where
  code : codeOf inComment l ≠ []
  no_open : '{' ∉ codeOf inComment l
  no_close : '}' ∉ codeOf inComment l
  no_opener : opener? (codeOf inComment l) = none

instance (inComment : Bool) (l : List Char) : Decidable (Plain inComment l) :=
  decidable_of_iff (codeOf inComment l ≠ [] ∧ '{' ∉ codeOf inComment l ∧
      '}' ∉ codeOf inComment l ∧ opener? (codeOf inComment l) = none)
    ⟨fun ⟨hc, ho, hb, hn⟩ => ⟨hc, ho, hb, hn⟩, fun ⟨hc, ho, hb, hn⟩ => ⟨hc, ho, hb, hn⟩⟩

/-- The faults of all lines but one. -/
def elsewhere (n : Nat) (fs : List Fault) : List Fault :=
  fs.filter fun f => f.line ≠ n

theorem elsewhere_append (n : Nat) (fs gs : List Fault) :
    elsewhere n (fs ++ gs) = elsewhere n fs ++ elsewhere n gs :=
  List.filter_append ..

theorem elsewhere_of_line {n : Nat} {fs : List Fault} (h : ∀ f ∈ fs, f.line = n) :
    elsewhere n fs = [] :=
  List.filter_eq_nil_iff.2 fun f hf => by simp [h f hf]

section
variable {s : State} {n : Nat}

/-- Without braces and openers the blocks stay, and an opener that waits goes without its brace. -/
theorem blocks_plain {code : List Char} (hopen : '{' ∉ code) (hclose : '}' ∉ code)
    (hopener : opener? code = none) :
    blocks s n code = { stack := s.stack, faults := s.pending.toList.map Block.lacksBrace } := by
  have hsettle : settle s code =
      { stack := s.stack, faults := s.pending.toList.map Block.lacksBrace } := by
    unfold settle
    cases s.pending with
    | none => rfl
    | some block => exact if_neg fun hb => hopen (List.mem_of_mem_head? hb)
  have hcount : code.count '{' ≤ 0 := Nat.le_of_eq (List.count_eq_zero.2 hopen)
  rw [blocks, hsettle, declare_of_none hopener, balance_settled hcount hclose]

/-- A plain line tells the state nothing, and has no fault elsewhere but that of an opener. -/
theorem step_plain {l : List Char} (h : Plain s.inComment l) :
    (step s (l, n)).1 = { s with pending := none } ∧
      elsewhere n (step s (l, n)).2 = elsewhere n (s.pending.toList.map Block.lacksBrace) := by
  obtain ⟨hcode, hopen, hclose, hopener⟩ := h
  obtain ⟨hs, hn, hc⟩ := outside_of_codeOf hcode
  rw [hs, codeOf_code hc] at hopen hclose hopener
  have hcauses : ∀ causes : List Cause,
      elsewhere n (causes.map fun cause => { line := n, cause }) = [] := fun causes =>
    elsewhere_of_line (List.forall_mem_map.2 fun _ _ => rfl)
  rw [step_of_code hs hn hc, scanCode, blocks_plain hopen hclose hopener]
  refine ⟨rfl, ?_⟩
  simp only [elsewhere_append, hcauses, List.nil_append, List.append_nil,
    elsewhere_of_line fun f hf => (site_trailing n _ _ f hf).1,
    elsewhere_of_line fun f hf => (site_semicolon n _ _ f hf).1]

end

def issuesElsewhere (n : Nat) (ls : List (List Char)) : List Issue :=
  ((check ls).map Fault.issue).filter fun i => i.line ≠ (n : Int)

theorem issuesElsewhere_eq (n : Nat) (ls : List (List Char)) :
    issuesElsewhere n ls = (elsewhere n (check ls)).map Fault.issue := by
  rw [issuesElsewhere, List.filter_map, elsewhere]
  congr 1
  refine List.filter_congr fun f _ => ?_
  exact decide_eq_decide.2 (not_congr Int.ofNat_inj)

/-- A line of code without braces that opens no block may become any other such line: all issues
but those at the line itself stay, in their order. -/
theorem issues_elsewhere {above : List (List Char)} {l k : List Char}
    (hl : Plain (blockAfterAll false above) l) (hk : Plain (blockAfterAll false above) k)
    (below : List (List Char)) :
    issuesElsewhere (above.length + 1) (above ++ l :: below) =
      issuesElsewhere (above.length + 1) (above ++ k :: below) := by
  have hin : (scan {} (above.zipIdx 1)).1.inComment = blockAfterAll false above :=
    inComment_scan {} above 1
  obtain ⟨hstate, hfaults⟩ := step_plain (n := above.length + 1) (hin ▸ hl)
  obtain ⟨hstate', hfaults'⟩ := step_plain (n := above.length + 1) (hin ▸ hk)
  rw [issuesElsewhere_eq, issuesElsewhere_eq, check_split, check_split, faultsFrom_cons,
    faultsFrom_cons, hstate, hstate']
  simp only [elsewhere_append, hfaults, hfaults']

/-- An opener waits, and the line that should hold its brace becomes another: the opener's fault and
that of the block that stays open are the same, and each line has its own. -/
theorem issues_elsewhere_waiting :
    (Plain (blockAfterAll false ["enum E".toList]) "int32 a".toList ∧
        Plain (blockAfterAll false ["enum E".toList]) "package b; c".toList) ∧
      issuesElsewhere 2 (["enum E".toList] ++ "int32 a".toList :: ["message M \x7b".toList]) =
        issuesElsewhere 2
          (["enum E".toList] ++ "package b; c".toList :: ["message M \x7b".toList]) ∧
      check ["enum E".toList, "int32 a".toList, "message M \x7b".toList] =
        [Block.lacksBrace ⟨.enum, ['E'], 1⟩, Block.staysOpen ⟨.message, ['M'], 3⟩] ∧
      check ["enum E".toList, "package b; c".toList, "message M \x7b".toList] =
        [Block.lacksBrace ⟨.enum, ['E'], 1⟩,
          { line := 2, column := 11, cause := .trailingContent ['c'] },
          Block.staysOpen ⟨.message, ['M'], 3⟩] := by
  have hl : Plain (blockAfterAll false ["enum E".toList]) "int32 a".toList := by decide
  have hk : Plain (blockAfterAll false ["enum E".toList]) "package b; c".toList := by decide
  exact ⟨⟨hl, hk⟩, issues_elsewhere hl hk ["message M \x7b".toList], by decide, by decide⟩

end SchemaLint.Structure
