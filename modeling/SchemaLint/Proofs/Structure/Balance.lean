import SchemaLint.Proofs.Structure.Nesting

/-! Balance of braces. The scan opens the blocks of a line before it closes any, so it finds the
nesting sound exactly if no line ends with more closing braces so far than opening ones, and the
source ends with as many. Code that is balanced from brace to brace is so from line to line. -/

namespace SchemaLint.Structure
open SchemaLint.Text SchemaLint.Line

/-- No initial part of the code closes more braces than it opens, and the whole closes all. -/
def Balanced (code : List Char) : Prop :=
  (∀ front, front <+: code → front.count '}' ≤ front.count '{') ∧
    code.count '{' = code.count '}'

/-- No line ends with more braces closed so far than opened, and the whole closes all. -/
def BalancedByLine (ls : List (List Char)) : Prop :=
  (∀ n, (codeOfAll false (ls.take n)).count '}' ≤ (codeOfAll false (ls.take n)).count '{') ∧
    (codeOfAll false ls).count '{' = (codeOfAll false ls).count '}'

theorem codeOfAll_take (b : Bool) (ls : List (List Char)) (n : Nat) :
    codeOfAll b (ls.take n) <+: codeOfAll b ls := by
  induction ls generalizing b n with
  | nil => simp [codeOfAll]
  | cons l ls ih =>
      cases n with
      | zero => exact List.nil_prefix
      | succ n =>
          rw [List.take_succ_cons, codeOfAll, codeOfAll, List.prefix_append_right_inj]
          exact ih _ n

theorem Balanced.byLine {ls : List (List Char)} (h : Balanced (codeOfAll false ls)) :
    BalancedByLine ls :=
  ⟨fun n => h.1 _ (codeOfAll_take false ls n), h.2⟩

theorem unnested_iff_count {fs : List Fault} :
    Unnested fs ↔ fs.countP Fault.isUnexpectedClose = 0 ∧ fs.countP Fault.isUnclosed = 0 := by
  refine ⟨Unnested.count, fun ⟨hclose, hopen⟩ f hf => ?_⟩
  exact ⟨Bool.eq_false_iff.2 (List.countP_eq_zero.1 hclose f hf),
    Bool.eq_false_iff.2 (List.countP_eq_zero.1 hopen f hf)⟩

theorem balance_exhausts {n line : Nat} {code : List Char} {b : Blocks} (h : Claims n code b) :
    (balance line code b).faults.countP Fault.isUnexpectedClose = 0 ∨
      (balance line code b).stack = [] := by
  simp only [balance, List.countP_append, h.unnested.count.1, Nat.zero_add, List.drop_eq_nil_iff]
  generalize List.replicate _ _ ++ b.stack = stack
  rcases Nat.le_total (code.count '}') stack.length with hle | hle
  · left
    rw [Nat.sub_eq_zero_of_le hle]
    rfl
  · exact .inr hle

theorem step_exhausts (s : State) (l : List Char) (line : Nat) :
    (step s (l, line)).2.countP Fault.isUnexpectedClose = 0 ∨ (step s (l, line)).1.stack = [] := by
  unfold step
  dsimp only
  split
  case isTrue => exact .inl rfl
  case isFalse =>
      split
      case isTrue => exact .inl rfl
      case isFalse =>
          split
          case isTrue => exact .inl (unnested_pending s.pending).count.1
          case isFalse =>
              rw [(countP_scanCode ..).1]
              exact balance_exhausts (claims_blocks ..)

/-- Over a line, a closing brace is reported exactly if the line closes more than is open. -/
theorem unexpected_step_iff (s : State) (l : List Char) (line : Nat) :
    (step s (l, line)).2.countP Fault.isUnexpectedClose = 0 ↔
      (codeOf s.inComment l).count '}' ≤ s.stack.length + (codeOf s.inComment l).count '{' := by
  have hcount := (count_step s l line).1
  rcases step_exhausts s l line with h | h
  · omega
  · rw [h, List.length_nil] at hcount
    omega

/-- Over all lines none is reported exactly if none closes more than is open by then. -/
theorem unexpected_scan_iff (s : State) (ls : List (List Char)) (n : Nat) :
    (scan s (ls.zipIdx n)).2.countP Fault.isUnexpectedClose = 0 ↔
      ∀ k, (codeOfAll s.inComment (ls.take k)).count '}' ≤
        s.stack.length + (codeOfAll s.inComment (ls.take k)).count '{' := by
  induction ls generalizing s n with
  | nil => simp [scan, codeOfAll]
  | cons l ls ih =>
      have hstep := unexpected_step_iff s l n
      have hcount := (count_step s l n).1
      rw [scan_cons, List.countP_append, Nat.add_eq_zero_iff, ih, inComment_step]
      constructor
      · rintro ⟨hl, hls⟩ k
        cases k with
        | zero => exact Nat.zero_le _
        | succ k =>
            have hk := hls k
            rw [List.take_succ_cons, codeOfAll, List.count_append, List.count_append]
            omega
      · intro h
        have hl : (step s (l, n)).2.countP Fault.isUnexpectedClose = 0 := by
          rw [hstep]
          simpa [codeOfAll] using h 1
        refine ⟨hl, fun k => ?_⟩
        have hk := h (k + 1)
        rw [List.take_succ_cons, codeOfAll, List.count_append, List.count_append] at hk
        omega

/-- No fault is about nesting exactly if the braces are balanced line by line, as they are when the
code is balanced. -/
theorem unnested_check_iff (ls : List (List Char)) :
    (Unnested (check ls) ↔ BalancedByLine ls) ∧
      (Balanced (codeOfAll false ls) → Unnested (check ls)) := by
  have hiff : Unnested (check ls) ↔ BalancedByLine ls := by
    obtain ⟨hcount, hopen⟩ := count_scan {} ls 1
    obtain ⟨hclosing, hunclosed⟩ := count_closing (scan {} (ls.zipIdx 1)).1
    have hscan := unexpected_scan_iff {} ls 1
    simp only [List.length_nil, Nat.zero_add] at hcount hscan
    rw [unnested_iff_count, check, List.countP_append, List.countP_append, hopen, hclosing,
      hunclosed, Nat.add_zero, Nat.zero_add, hscan, BalancedByLine]
    refine and_congr_right fun hlines => ?_
    rw [hscan.2 hlines] at hcount
    omega
  exact ⟨hiff, fun h => hiff.2 h.byLine⟩

/-- A line may close a block before the one that it opens, and be taken to open it first. -/
theorem unnested_check_unbalanced :
    ¬ ∀ ls : List (List Char), Unnested (check ls) ↔ Balanced (codeOfAll false ls) := by
  intro h
  have hnone : check ["message A \x7b".toList, "\x7d \x7d \x7b".toList] = [] := by decide
  have hbalanced := (h ["message A \x7b".toList, "\x7d \x7d \x7b".toList]).1
    (hnone ▸ unnested_nil)
  have := hbalanced.1 "message A \x7b\x7d \x7d".toList (by decide)
  revert this
  decide

end SchemaLint.Structure
