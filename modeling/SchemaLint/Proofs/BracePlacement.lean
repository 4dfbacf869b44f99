import SchemaLint.Proofs.Structure.Headings
import SchemaLint.Proofs.Structure.Renumbering
import SchemaLint.Proofs.Style.Headings
import SchemaLint.Source

/-! The place of an opening brace. A message, an enum or a service may have its brace on its own
line or below, behind blank lines. Both passes go on from the same state, so they report the same
issues, with other line numbers below. -/

namespace SchemaLint
open SchemaLint.Line

/-- The number of a line, when those below line `n` are `k` lines further down. -/
def lowered (n k i : Nat) : Nat :=
  if i ≤ n then i else i + k

/-- The issue, when the lines below line `n` are `k` lines further down. -/
def Issue.lowered (n k : Nat) (i : Issue) : Issue :=
  if i.line ≤ n then i else i.below k

section
variable {n k : Nat}

theorem lowered_of_le {i : Nat} (h : i ≤ n) : lowered n k i = i :=
  if_pos h

theorem lowered_of_lt {i : Nat} (h : n < i) : lowered n k i = i + k :=
  if_neg (Nat.not_le_of_lt h)

theorem strictMono_lowered : StrictMono (lowered n k) := by
  intro i j hij
  unfold lowered
  split <;> split <;> omega

theorem issue_lowered (rule : Rule) (i : Nat) (message : String) (column : Int) :
    rule.issue (lowered n k i) message column =
      (rule.issue i message column).lowered n k := by
  by_cases hi : i ≤ n
  · have hle : (rule.issue i message column).line ≤ n := Int.ofNat_le.2 hi
    rw [lowered_of_le hi, Issue.lowered, if_pos hle]
  · have hlt : ¬ (rule.issue i message column).line ≤ n := fun h => hi (Int.ofNat_le.1 h)
    rw [lowered_of_lt (Nat.lt_of_not_le hi), Issue.lowered, if_neg hlt, Int.natCast_add]
    rfl

end

theorem length_pos_of_lowers {l : List Char} {low : List (List Char)} (h : Lowers l low) :
    0 < low.length := by
  cases h
  exact Nat.zero_lt_succ _

namespace Source

section
variable {above low : List (List Char)} {l : List Char} (lowers : Lowers l low)
  (outside : blockAfterAll false above = false) (below : List (List Char))
include lowers

theorem lowered_below (i : Nat) :
    lowered (above.length + 1) (low.length - 1) ((above ++ [l]).length + 1 + i) =
      (above ++ low).length + 1 + i := by
  have hpos := length_pos_of_lowers lowers
  rw [List.length_append, List.length_append, List.length_singleton, lowered_of_lt (by omega)]
  omega

include outside

theorem structure_lowered :
    Structure.check (above ++ low ++ below) = (Structure.check (above ++ [l] ++ below)).map
      (Structure.Fault.renumber (lowered (above.length + 1) (low.length - 1))) := by
  have hs : (Structure.scan {} (above.zipIdx 1)).1.inComment = false :=
    (Structure.inComment_scan {} above 1).trans outside
  refine Structure.check_replace ?_ (fun i hi => lowered_of_le ?_) (lowered_below lowers) below
  · rw [Structure.scan_append, Structure.scan_append, Structure.scan_lowers lowers hs]
  · rwa [List.length_append] at hi

theorem style_lowered (content content' : List Char) :
    (Style.check content' (above ++ low ++ below)).map Style.substance =
      (Style.check content (above ++ [l] ++ below)).map fun found =>
        (Style.substance found).map
          (Style.Finding.renumber (lowered (above.length + 1) (low.length - 1))) := by
  have hs : (Style.scan {} (above.zipIdx 1)).1.inComment = false :=
    (Style.scan_place {} above 1).2.trans outside
  obtain ⟨hstate, hfound⟩ := Style.scan_lowers lowers hs (1 + above.length)
  refine Style.check_replace ?_ ?_ strictMono_lowered (lowered_of_le (by omega))
    (fun i hi => lowered_of_le ?_) (lowered_below lowers) content content' below
  · rw [Style.scan_append, Style.scan_append, hstate]
  · rw [Style.scan_append, Style.scan_append, Style.substance_append, hfound,
      Style.substance_append]
  · rwa [List.length_append] at hi

end

/-- The issues of rules that are not about layout. -/
def substance (issues : List Issue) : List Issue :=
  issues.filter fun i => !i.rule.ofLayout

theorem substance_issues (found : List Style.Finding) :
    substance (found.map Style.Finding.issue) =
      (Style.substance found).map Style.Finding.issue := by
  rw [substance, List.filter_map]
  rfl

/-- Outside block comments the brace of a message, an enum or a service may stand at the end of the
heading or on a line of its own below it, behind blank lines: both passes report the same issues,
those of later lines further down, but for the length of lines and the end of the source. -/
theorem brace_placement {above low below : List (List Char)} {l content content' : List Char}
    (lowers : Lowers l low) (outside : blockAfterAll false above = false)
    (hcontent : lines content = above ++ l :: below)
    (hlow : lines content' = above ++ (low ++ below)) :
    let moved := Issue.lowered (above.length + 1) (low.length - 1)
    (Structure.check (lines content')).map Structure.Fault.issue =
        ((Structure.check (lines content)).map Structure.Fault.issue).map moved ∧
      (Style.check content' (lines content')).map
          (fun found => substance (found.map Style.Finding.issue)) =
        (Style.check content (lines content)).map
          (fun found => (substance (found.map Style.Finding.issue)).map moved) := by
  have hfault : ∀ {n k : Nat} (f : Structure.Fault),
      (f.renumber (lowered n k)).issue = f.issue.lowered n k := by
    intro n k f
    rw [Structure.Fault.issue, Structure.Fault.renumber, Structure.Cause.message_renumber]
    exact issue_lowered ..
  have hfinding : ∀ {n k : Nat} (f : Style.Finding),
      (f.renumber (lowered n k)).issue = f.issue.lowered n k := fun f => issue_lowered ..
  rw [hcontent, hlow, List.append_cons, ← List.append_assoc]
  constructor
  · rw [structure_lowered lowers outside, List.map_map, List.map_map]
    exact List.map_congr_left fun f _ => hfault f
  · have hissues : ∀ {n k : Nat} (found : List Style.Finding),
        (found.map (Style.Finding.renumber (lowered n k))).map Style.Finding.issue =
          (found.map Style.Finding.issue).map (Issue.lowered n k) := by
      intro n k found
      rw [List.map_map, List.map_map]
      exact List.map_congr_left fun f _ => hfinding f
    have hmap : ∀ (g : List Style.Finding → List Style.Finding)
        (result : Except Numeral.Fault (List Style.Finding)),
        (result.map g).map (List.map Style.Finding.issue) =
          result.map fun found => (g found).map Style.Finding.issue := by
      intro g result
      cases result <;> rfl
    have hstyle := congrArg (Except.map (List.map Style.Finding.issue))
      (style_lowered lowers outside below content content')
    rw [hmap, hmap] at hstyle
    simp only [substance_issues, ← hissues]
    exact hstyle

/-- An enum in a message: the fault of the stray brace at the end moves two lines down. -/
theorem brace_placement_enum :
    (Lowers "  enum E\t\x7b".toList ["enum E".toList, [], " \x7b".toList] ∧
        blockAfterAll false ["message A \x7b".toList] = false ∧
        lines "message A \x7b\n  enum E\t\x7b\n\x7d\x7d\x7d".toList =
          ["message A \x7b".toList] ++ "  enum E\t\x7b".toList :: ["\x7d\x7d\x7d".toList] ∧
        lines "message A \x7b\nenum E\n\n \x7b\n\x7d\x7d\x7d".toList =
          ["message A \x7b".toList] ++ (["enum E".toList, [], " \x7b".toList] ++
            ["\x7d\x7d\x7d".toList])) ∧
      (Structure.check (lines "message A \x7b\nenum E\n\n \x7b\n\x7d\x7d\x7d".toList)).map
          Structure.Fault.issue =
        ((Structure.check (lines "message A \x7b\n  enum E\t\x7b\n\x7d\x7d\x7d".toList)).map
          Structure.Fault.issue).map (Issue.lowered 2 2) ∧
      (Style.check "message A \x7b\nenum E\n\n \x7b\n\x7d\x7d\x7d".toList
          (lines "message A \x7b\nenum E\n\n \x7b\n\x7d\x7d\x7d".toList)).map
          (fun found => substance (found.map Style.Finding.issue)) =
        (Style.check "message A \x7b\n  enum E\t\x7b\n\x7d\x7d\x7d".toList
          (lines "message A \x7b\n  enum E\t\x7b\n\x7d\x7d\x7d".toList)).map
          (fun found =>
            (substance (found.map Style.Finding.issue)).map (Issue.lowered 2 2)) := by
  have hlowers : Lowers "  enum E\t\x7b".toList ["enum E".toList, [], " \x7b".toList] :=
    @Lowers.mk _ ⟨.enum, ['E'], by decide, by decide, by decide⟩ _ _ ['\t'] [[]]
      (by decide) (by decide) (by decide) (by decide) (by decide)
  have hcontent : lines "message A \x7b\n  enum E\t\x7b\n\x7d\x7d\x7d".toList =
      ["message A \x7b".toList] ++ "  enum E\t\x7b".toList :: ["\x7d\x7d\x7d".toList] := by
    decide
  have hlow : lines "message A \x7b\nenum E\n\n \x7b\n\x7d\x7d\x7d".toList =
      ["message A \x7b".toList] ++ (["enum E".toList, [], " \x7b".toList] ++
        ["\x7d\x7d\x7d".toList]) := by
    decide
  exact ⟨⟨hlowers, by decide, hcontent, hlow⟩, brace_placement hlowers (by decide) hcontent hlow⟩

end Source

end SchemaLint
