import SchemaLint.Proofs.Structure.Nesting

/-! Lines under other numbers. The scan puts line numbers into blocks and faults and never looks at
them again, so with other numbers it does the same. Lines that come behind others are a case of it:
where nothing is open and nothing waits, they are judged as if they stood alone. -/

namespace SchemaLint

/-- The issue `k` lines further down. -/
def Issue.below (k : Nat) (i : Issue) : Issue :=
  { i with line := i.line + k }

namespace Structure
open SchemaLint.Text SchemaLint.Line

def Block.renumber (f : Nat → Nat) (b : Block) : Block :=
  { b with line := f b.line }

def Cause.renumber (f : Nat → Nat) : Cause → Cause
  | .missingBrace b => .missingBrace (b.renumber f)
  | .unclosed b => .unclosed (b.renumber f)
  | cause => cause

def Fault.renumber (f : Nat → Nat) (fault : Fault) : Fault :=
  { fault with line := f fault.line, cause := fault.cause.renumber f }

def Blocks.renumber (f : Nat → Nat) (b : Blocks) : Blocks :=
  { b with
    stack := b.stack.map (Block.renumber f)
    pending := b.pending.map (Block.renumber f)
    faults := b.faults.map (Fault.renumber f) }

def State.renumber (f : Nat → Nat) (s : State) : State :=
  { s with stack := s.stack.map (Block.renumber f), pending := s.pending.map (Block.renumber f) }

def renumberOutcome (f : Nat → Nat) (outcome : State × List Fault) : State × List Fault :=
  (outcome.1.renumber f, outcome.2.map (Fault.renumber f))

section
variable {f : Nat → Nat}

@[simp] theorem Cause.message_renumber (cause : Cause) :
    (cause.renumber f).message = cause.message := by
  cases cause <;> rfl

theorem Cause.renumber_of_statement {cause : Cause} (h : cause.site = .statement) :
    cause.renumber f = cause := by
  cases cause with
  | missingBrace b => cases h
  | unclosed b => cases h
  | _ => rfl

@[simp] theorem State.context_renumber (s : State) : (s.renumber f).context = s.context := by
  simp only [State.context, State.renumber, List.head?_map, Option.map_map]
  rfl

@[simp] theorem State.atTopLevel_renumber (s : State) :
    (s.renumber f).atTopLevel = s.atTopLevel := by
  simp [State.atTopLevel, State.renumber]

theorem settle_renumber (s : State) (code : List Char) :
    settle (s.renumber f) code = (settle s code).renumber f := by
  obtain ⟨stack, pending, inComment⟩ := s
  cases pending with
  | none => rfl
  | some b =>
      simp only [settle, State.renumber, Option.map_some]
      split <;> rfl

theorem declare_renumber (line : Nat) (code : List Char) (b : Blocks) :
    declare (f line) code (b.renumber f) = (declare line code b).renumber f := by
  unfold declare
  cases opener? code with
  | none => rfl
  | some o =>
      dsimp only
      split
      case isTrue =>
          by_cases hname : o.name = []
          all_goals simp [Blocks.renumber, Block.renumber, Fault.renumber, Cause.renumber, hname]
      case isFalse =>
          split
          all_goals by_cases hname : o.name = []
          all_goals simp [Blocks.renumber, Block.renumber, Fault.renumber, Cause.renumber,
            Block.lacksBrace, hname]

theorem balance_renumber (line : Nat) (code : List Char) (b : Blocks) :
    balance (f line) code (b.renumber f) = (balance line code b).renumber f := by
  have hplain : ∀ opened, (List.replicate opened (Block.mk .plain [] line)).map
      (Block.renumber f) = List.replicate opened (Block.mk .plain [] (f line)) :=
    fun _ => List.map_replicate
  have hclose : ∀ closed, (List.replicate closed (Fault.mk line 1 .unexpectedClose)).map
      (Fault.renumber f) = List.replicate closed (Fault.mk (f line) 1 .unexpectedClose) :=
    fun _ => List.map_replicate
  simp only [balance, Blocks.renumber, List.map_drop, List.map_append, hplain, hclose,
    List.length_append, List.length_replicate, List.length_map]
  rfl

theorem blocks_renumber (s : State) (line : Nat) (code : List Char) :
    blocks (s.renumber f) (f line) code = (blocks s line code).renumber f := by
  rw [blocks, settle_renumber, declare_renumber, balance_renumber]
  rfl

theorem map_renumber_of_statement {causes : List Cause} (h : ∀ c ∈ causes, c.site = .statement)
    (line : Nat) :
    (causes.map fun cause => { line, cause }).map (Fault.renumber f) =
      causes.map fun cause => { line := f line, cause } := by
  rw [List.map_map]
  apply List.map_congr_left
  intro cause hc
  change Fault.mk (f line) 1 (cause.renumber f) = _
  rw [Cause.renumber_of_statement (h cause hc)]

theorem trailingFaults_renumber (line indent : Nat) (code : List Char) :
    trailingFaults (f line) indent code =
      (trailingFaults line indent code).map (Fault.renumber f) := by
  simp only [trailingFaults]
  split <;> rfl

theorem semicolonFaults_renumber (line indent : Nat) (code : List Char) :
    semicolonFaults (f line) indent code =
      (semicolonFaults line indent code).map (Fault.renumber f) := by
  unfold semicolonFaults
  split <;> rfl

theorem scanCode_renumber (s : State) (line indent : Nat) (code : List Char) :
    scanCode (s.renumber f) (f line) indent code =
      renumberOutcome f (scanCode s line indent code) := by
  unfold scanCode
  rw [blocks_renumber, State.context_renumber, State.atTopLevel_renumber, trailingFaults_renumber,
    semicolonFaults_renumber]
  dsimp only
  rw [← map_renumber_of_statement (site_member s.context code),
    ← map_renumber_of_statement (site_rpc s.context code),
    ← map_renumber_of_statement (site_topLevel s.atTopLevel code)]
  simp only [renumberOutcome, List.map_append]
  rfl

theorem pendingFaults_renumber (pending : Option Block) :
    (pending.map (Block.renumber f)).toList.map Block.lacksBrace =
      (pending.toList.map Block.lacksBrace).map (Fault.renumber f) := by
  cases pending <;> rfl

theorem step_renumber (s : State) (l : List Char) (line : Nat) :
    step (s.renumber f) (l, f line) = renumberOutcome f (step s (l, line)) := by
  have hcomment : (s.renumber f).inComment = s.inComment := rfl
  rcases line_cases s.inComment l with hs | hl | ⟨hs, hc⟩ | ⟨hs, hn, hc⟩
  · rw [step_inside hs, step_inside (hcomment.trans hs)]
    rfl
  · rw [step_blank hl, step_blank hl]
    rfl
  · have hpending : (s.renumber f).pending = s.pending.map (Block.renumber f) := rfl
    rw [step_comment hs hc, step_comment (hcomment.trans hs) hc, hpending, pendingFaults_renumber]
    rfl
  · rw [step_of_code hs hn hc, step_of_code (hcomment.trans hs) hn hc]
    exact scanCode_renumber ..

theorem scan_renumber (s : State) (items : List (List Char × Nat)) :
    scan (s.renumber f) (items.map (Prod.map id f)) = renumberOutcome f (scan s items) :=
  Pass.run_map (fun s item => step_renumber s item.1 item.2) s items

theorem closing_renumber (s : State) :
    (s.renumber f).closing = s.closing.map (Fault.renumber f) := by
  have hopen : (s.stack.map (Block.renumber f)).reverse.map Block.staysOpen =
      (s.stack.reverse.map Block.staysOpen).map (Fault.renumber f) := by
    rw [← List.map_reverse, List.map_map, List.map_map]
    rfl
  rw [State.closing, State.closing, List.map_append, ← pendingFaults_renumber, ← hopen]
  rfl

/-- The faults from line `n` on, where that line and those below it get the numbers from `m` on. -/
theorem faultsFrom_renumber {n m : Nat} {ls : List (List Char)}
    (h : ∀ i < ls.length, f (n + i) = m + i) (s : State) :
    faultsFrom (s.renumber f) m ls = (faultsFrom s n ls).map (Fault.renumber f) := by
  rw [faultsFrom, ← zipIdx_renumber h, scan_renumber, faultsFrom, List.map_append,
    ← closing_renumber]
  rfl

/-- The lines above keep their numbers, and so does all that the scan remembers of them. -/
theorem renumberOutcome_above {above : List (List Char)} (h : ∀ i ≤ above.length, f i = i) :
    renumberOutcome f (scan {} (above.zipIdx 1)) = scan {} (above.zipIdx 1) := by
  have hf : ∀ i < above.length, f (1 + i) = 1 + i := fun i hi => h (1 + i) (by omega)
  rw [← scan_renumber, zipIdx_renumber hf]
  rfl

theorem check_split (above below : List (List Char)) :
    check (above ++ below) = (scan {} (above.zipIdx 1)).2 ++
      faultsFrom (scan {} (above.zipIdx 1)).1 (above.length + 1) below := by
  rw [check_eq, faultsFrom_append, Nat.add_comm]

/-- If lines are scanned like others, the faults of a source that starts with the one are those of
a source that starts with the other, with other numbers below. -/
theorem check_replace {xs ys : List (List Char)}
    (h : scan {} (ys.zipIdx 1) = scan {} (xs.zipIdx 1)) (habove : ∀ i ≤ xs.length, f i = i)
    (hbelow : ∀ i, f (xs.length + 1 + i) = ys.length + 1 + i) (below : List (List Char)) :
    check (ys ++ below) = (check (xs ++ below)).map (Fault.renumber f) := by
  have houtcome := renumberOutcome_above habove
  have hstate : (scan {} (xs.zipIdx 1)).1.renumber f = (scan {} (xs.zipIdx 1)).1 :=
    congrArg Prod.fst houtcome
  have hfaults : (scan {} (xs.zipIdx 1)).2.map (Fault.renumber f) = (scan {} (xs.zipIdx 1)).2 :=
    congrArg Prod.snd houtcome
  rw [check_split, check_split, h, List.map_append, hfaults,
    ← faultsFrom_renumber fun i _ => hbelow i, hstate]

end

theorem Fault.issue_renumber_add (k : Nat) (fault : Fault) :
    (fault.renumber (· + k)).issue = fault.issue.below k := by
  simp [Fault.issue, Fault.renumber, Issue.below, Rule.issue]

/-- What follows a source that leaves nothing open is scanned as if it stood alone. -/
theorem check_append {xs : List (List Char)} (h : (scan {} (xs.zipIdx 1)).1 = {})
    (ys : List (List Char)) :
    check (xs ++ ys) = check xs ++ (check ys).map (Fault.renumber (· + xs.length)) := by
  have hxs : check xs = (scan {} (xs.zipIdx 1)).2 := by
    rw [check_eq, faultsFrom, h]
    exact List.append_nil _
  have hys : faultsFrom {} (1 + xs.length) ys =
      (check ys).map (Fault.renumber (· + xs.length)) := by
    have hf : ∀ i < ys.length, 1 + i + xs.length = 1 + xs.length + i :=
      fun i _ => Nat.add_right_comm ..
    exact faultsFrom_renumber (f := (· + xs.length)) hf {}
  rw [check_eq, faultsFrom_append, h, hys, hxs]

/-- If a source leaves no block open, no opener waiting and no block comment open, the issues of
what follows it are those that it has alone, as many lines further down. -/
theorem issues_append (xs ys : List (List Char))
    (hstack : (scan {} (xs.zipIdx 1)).1.stack = [])
    (hpending : (scan {} (xs.zipIdx 1)).1.pending = none)
    (hcomment : (scan {} (xs.zipIdx 1)).1.inComment = false) :
    (check (xs ++ ys)).map Fault.issue =
      (check xs).map Fault.issue ++ ((check ys).map Fault.issue).map (Issue.below xs.length) := by
  have hsettled : (scan {} (xs.zipIdx 1)).1 = {} := by
    generalize (scan {} (xs.zipIdx 1)).1 = s at hstack hpending hcomment
    obtain ⟨stack, pending, inComment⟩ := s
    cases hstack
    cases hpending
    cases hcomment
    rfl
  have hissues : Fault.issue ∘ Fault.renumber (· + xs.length) =
      Issue.below xs.length ∘ Fault.issue := funext (Fault.issue_renumber_add xs.length)
  rw [check_append hsettled, List.map_append, List.map_map, List.map_map, hissues]

/-- A closed message, and after it an opener whose brace never comes and an enum that stays open:
both are reported at their own lines, two further down. -/
theorem issues_append_sample :
    ((scan {} (["message A \x7b".toList, "\x7d".toList].zipIdx 1)).1.stack = [] ∧
        (scan {} (["message A \x7b".toList, "\x7d".toList].zipIdx 1)).1.pending = none ∧
        (scan {} (["message A \x7b".toList, "\x7d".toList].zipIdx 1)).1.inComment = false) ∧
      (check ["message A \x7b".toList, "\x7d".toList, "message B".toList, "// c".toList,
          "enum E \x7b".toList]).map Fault.issue =
        (check ["message A \x7b".toList, "\x7d".toList]).map Fault.issue ++
          ((check ["message B".toList, "// c".toList, "enum E \x7b".toList]).map
            Fault.issue).map (Issue.below 2) :=
  ⟨by decide, issues_append ["message A \x7b".toList, "\x7d".toList] _ (by decide) (by decide)
    (by decide)⟩

end Structure

end SchemaLint
