import SchemaLint.Proofs.Structure.Nesting
import SchemaLint.Proofs.Style.Nesting

/-! Nesting as the two passes see it. The structural scan keeps a stack of blocks and reports a
closing brace when the stack is empty; the style pass counts braces and may go below zero. They
agree after every line, up to the closing braces reported. -/

namespace SchemaLint.Source
open SchemaLint.Line SchemaLint.Structure

/-- After any number of lines both passes are inside a block comment or both outside, and the open
blocks are as many as the style pass's depth and the closing braces reported. At the end each open
block is reported, and these are as many as the opening braces of the code less the closing ones,
and the closing braces reported. -/
theorem passes_agree_on_nesting (ls : List (List Char)) :
    (∀ n,
      let scanned := Structure.scan {} ((ls.take n).zipIdx 1)
      let styled := Style.scan {} ((ls.take n).zipIdx 1)
      scanned.1.inComment = styled.1.inComment ∧
        (scanned.1.stack.length : Int) =
          styled.1.depth + scanned.2.countP Fault.isUnexpectedClose) ∧
    (check ls).countP Fault.isUnclosed = (Structure.scan {} (ls.zipIdx 1)).1.stack.length ∧
    ((check ls).countP Fault.isUnclosed : Int) =
      (codeOfAll false ls).count '{' - (codeOfAll false ls).count '}' +
        (check ls).countP Fault.isUnexpectedClose := by
  have scanned : ∀ ls : List (List Char),
      (Structure.scan {} (ls.zipIdx 1)).1.stack.length + (codeOfAll false ls).count '}' =
        0 + (codeOfAll false ls).count '{' +
          (Structure.scan {} (ls.zipIdx 1)).2.countP Fault.isUnexpectedClose :=
    fun ls => (count_scan {} ls 1).1
  refine ⟨fun n => ?_, ?_⟩
  · obtain ⟨hdepth, hstyle⟩ := Style.scan_place {} (ls.take n) 1
    have hdepth : (Style.scan {} ((ls.take n).zipIdx 1)).1.depth =
        0 + Style.rise (codeOfAll false (ls.take n)) := hdepth
    have hcount := scanned (ls.take n)
    refine ⟨(inComment_scan {} (ls.take n) 1).trans hstyle.symm, ?_⟩
    rw [hdepth, Style.rise]
    omega
  · have hcount := scanned ls
    have hnone := (count_scan {} ls 1).2
    obtain ⟨hclose, hopen⟩ := count_closing (Structure.scan {} (ls.zipIdx 1)).1
    simp only [check, List.countP_append, hclose, hopen, hnone]
    omega

end SchemaLint.Source
