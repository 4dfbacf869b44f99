import SchemaLint.Proofs.Style.Nesting

/-! The rules on the header. The pass remembers the last line outside block comments that starts as
a syntax declaration, and the last that starts as a package declaration, whatever these lines are,
and the rules on the header ask about these two lines only. -/

namespace SchemaLint.Style
open SchemaLint.Text SchemaLint.Line

/-- The rules on the declarations at the head of a source. -/
def Cause.ofHeader : Cause → Bool
  | .noSyntax => true
  | .noPackage => true
  | .packageBeforeSyntax => true
  | _ => false

/-- No finding is about the header. -/
def OffHeader (fs : List Finding) : Prop :=
  ∀ f ∈ fs, f.cause.ofHeader = false

theorem OffHeader.filter {fs : List Finding} (h : OffHeader fs) :
    fs.filter (·.cause.ofHeader) = [] :=
  List.filter_eq_nil_iff.2 fun f hf => Bool.eq_false_iff.1 (h f hf)

theorem filter_headerFindings (s : State) :
    s.headerFindings.filter (·.cause.ofHeader) = s.headerFindings := by
  rw [State.headerFindings, List.filter_append, List.filter_append]
  refine congrArg₂ _ (congrArg₂ _ ?_ ?_) ?_
  · split <;> rfl
  · split <;> rfl
  · split
    · split <;> rfl
    · rfl

end SchemaLint.Style
