import SchemaLint.Proofs.Line.FirstWord
import SchemaLint.Structure.Scan

/-! The checks of a line of code one by one: when each finds nothing, and what each does with the
open blocks. -/

namespace SchemaLint.Structure
open SchemaLint.Text SchemaLint.Line

variable {code : List Char} {n : Nat}

theorem declare_of_none (h : opener? code = none) (b : Blocks) : declare n code b = b := by
  rw [declare, h]

theorem declare_of_brace {o : Opener} (h : opener? code = some o) (hname : o.name ≠ [])
    (hbrace : '{' ∈ code) (b : Blocks) :
    declare n code b = { b with stack := ⟨o.kind, o.name, n⟩ :: b.stack, claimed := true } := by
  have hmem : code.contains '{' = true := by simpa using hbrace
  rw [declare, h]
  simp only [hmem, if_true, if_neg hname, List.append_nil]

theorem declare_of_end {o : Opener} (h : opener? code = some o) (hname : o.name ≠ [])
    (hrest : trim o.rest = []) (hbrace : '{' ∉ code) (b : Blocks) :
    declare n code b = { b with pending := some ⟨o.kind, o.name, n⟩ } := by
  have hmem : code.contains '{' = false := by simpa using hbrace
  rw [declare, h]
  simp only [hmem, Bool.false_eq_true, if_false, if_neg hname, hrest, if_true, List.append_nil]

theorem balance_settled {b : Blocks} (hopen : code.count '{' ≤ if b.claimed then 1 else 0)
    (hclose : '}' ∉ code) : balance n code b = b := by
  have hopened : code.count '{' - (if b.claimed then 1 else 0) = 0 := Nat.sub_eq_zero_of_le hopen
  simp [balance, hopened, List.count_eq_zero.2 hclose]

theorem balance_unclaimed {b : Blocks} (hopen : code.count '{' = 1) (hclaimed : b.claimed = false)
    (hclose : '}' ∉ code) :
    balance n code b = { b with stack := ⟨.plain, [], n⟩ :: b.stack } := by
  simp [balance, hopen, hclaimed, List.count_eq_zero.2 hclose]

theorem blocks_close (stack : List Block) (n : Nat) :
    blocks { stack } n ['}'] =
      { stack := stack.tail,
        faults := List.replicate (1 - stack.length) { line := n, cause := .unexpectedClose } } := by
  have hnone : opener? ['}'] = none := rfl
  rw [blocks, declare_of_none hnone, balance, settle]
  simp

theorem isField_of_nested {keyword : String} (h : firstWord code = keyword.toList)
    (hk : keyword ∈ ["message", "enum", "oneof", "extend", "reserved", "option", "extensions"]) :
    isField code = false := by
  have hnested : isNestedDefinition code := by
    refine List.any_eq_true.2 ⟨keyword, hk, ?_⟩
    rw [decide_eq_true_eq]
    exact h.symm
  rw [isField, hnested, Bool.not_true, Bool.and_false, Bool.false_and]

theorem fieldCauses_of_not_field (h : isField code = false) : fieldCauses code = [] := by
  rw [fieldCauses, h]
  rfl

theorem fieldCauses_of_terminated (h : hasTerminatedNumber code) : fieldCauses code = [] := by
  rw [fieldCauses, h, Bool.or_true]
  rfl

theorem valueCauses_of_not_value (h : isEnumValue code = false) : valueCauses code = [] := by
  rw [valueCauses, h]
  rfl

theorem valueCauses_of_terminated (h : isTerminatedValue code) : valueCauses code = [] := by
  rw [valueCauses, h, Bool.or_true]
  rfl

theorem rpcCauses_of_ne {context : Option BlockKind} (h : context ≠ some .service) :
    rpcCauses context code = [] := by
  rw [rpcCauses, decide_eq_false h]
  rfl

theorem rpcCauses_of_isRpc (context : Option BlockKind) (h : isRpc code) :
    rpcCauses context code = [] := by
  rw [rpcCauses, h, Bool.not_true, Bool.and_false]
  rfl

theorem rpcCauses_of_firstWord (context : Option BlockKind) (h : "rpc".toList ≠ firstWord code) :
    rpcCauses context code = [] := by
  have : startsWith "rpc ".toList code = false :=
    startsWith_spaced_eq_false "rpc".toList (by decide) h
  rw [rpcCauses, this, Bool.and_false, Bool.false_and]
  rfl

theorem syntaxCauses_of_firstWord (h : "syntax".toList ≠ firstWord code) :
    syntaxCauses code = [] := by
  rw [syntaxCauses, syntaxValue?_eq_none h]

theorem trailingFaults_concat (n indent : Nat) (s : List Char) :
    trailingFaults n indent (s ++ [';']) = [] := by
  have hrest : afterLastSemicolon (s ++ [';']) = [] := by simp [afterLastSemicolon]
  have hcontent : trim (afterLastSemicolon (s ++ [';'])) = [] := by rw [hrest, trim_nil]
  simp [trailingFaults, hcontent]

theorem trailingFaults_of_no_semicolon (n indent : Nat) (h : ';' ∉ code) :
    trailingFaults n indent code = [] := by
  simp [trailingFaults, h]

theorem trailingFaults_of_brace (n indent : Nat) (h : '{' ∈ code) :
    trailingFaults n indent code = [] := by
  simp [trailingFaults, h]

theorem topLevelCauses_of_inside (code : List Char) : topLevelCauses false code = [] := rfl

theorem topLevelCauses_of_isTopLevel (atTopLevel : Bool) (h : isTopLevel code) :
    topLevelCauses atTopLevel code = [] := by
  rw [topLevelCauses, h, Bool.not_true, Bool.and_false]
  rfl

/-- A line that one of the keywords of the top level leads may stand there. -/
theorem isTopLevel_keyword {keyword : String} (hk : keyword ∈ ["syntax", "package", "import",
    "option", "message", "enum", "service", "extend"]) (t : List Char) :
    isTopLevel (keyword.toList ++ ' ' :: t) := by
  simp [isTopLevel, afterKeyword?_isSome hk t]

theorem semicolonFaults_of_mem (n indent : Nat) (h : ';' ∈ code ∨ '{' ∈ code) :
    semicolonFaults n indent code = [] := by
  have : Line.lacksSemicolon code = false := by
    rcases h with h | h <;> simp [Line.lacksSemicolon, h]
  rw [semicolonFaults, this]
  rfl

end SchemaLint.Structure
