import SchemaLint.Proofs.Structure.Nesting

/-! What becomes of openers. Whether an opener gets its brace can be read off the text: it is on the
opener's line, or at the start of the next line that is not blank. Where it is, the scan opens the
block; where there is none, it reports the opener. It does one of the two, and does it once. -/

namespace SchemaLint.Structure
open SchemaLint.Text SchemaLint.Line

/-- The block that an opener declares, and the line of its brace if it has one. -/
structure Opening where
  block : Block
  brace : Option Nat
  deriving DecidableEq

/-- The next line that is not blank, if its code starts with a brace. -/
def braceBelow (n : Nat) : List (List Char) → Option Nat
  | [] => none
  | l :: ls =>
    if trim l = [] then braceBelow (n + 1) ls
    else if (codeOf false l).head? = some '{' then some n
    else none

/-- The opener of a line of code. A brace on the line is its own; a brace further down is if nothing
follows its name. -/
def opening? (n : Nat) (code : List Char) (below : List (List Char)) : Option Opening :=
  (opener? code).map fun o =>
    { block := ⟨o.kind, o.name, n⟩
      brace :=
        if '{' ∈ code then some n
        else if trim o.rest = [] then braceBelow (n + 1) below
        else none }

/-- The openers of lines that are numbered from `n` on. -/
def openingsFrom (inComment : Bool) (n : Nat) : List (List Char) → List Opening
  | [] => []
  | l :: ls =>
    (opening? n (codeOf inComment l) ls).toList ++
      openingsFrom (blockAfter inComment (trim l)) (n + 1) ls

def openings (ls : List (List Char)) : List Opening :=
  openingsFrom false 1 ls

/-- What the openers of a line of code do, the one that waits among them, when no block is open. -/
def openers (s : State) (line : Nat) (code : List Char) : Blocks :=
  declare line code (settle { s with stack := [] } code)

/-- The blocks that a line of code opens, in order, whether it closes them or not. -/
def opened (s : State) (line : Nat) (code : List Char) : List Block :=
  let b := openers s line code
  b.stack.reverse ++ List.replicate (code.count '{' - if b.claimed then 1 else 0) ⟨.plain, [], line⟩

/-- A block, and the line on which it is opened. -/
structure Push where
  line : Nat
  block : Block
  deriving DecidableEq

/-- The blocks that lines numbered from `n` on open. -/
def pushesFrom (s : State) (n : Nat) : List (List Char) → List Push
  | [] => []
  | l :: ls =>
    (opened s n (codeOf s.inComment l)).map (Push.mk n) ++ pushesFrom (step s (l, n)).1 (n + 1) ls

def pushes (ls : List (List Char)) : List Push :=
  pushesFrom {} 1 ls

/-- The block has a keyword or a name. -/
def Push.isNamed (p : Push) : Bool :=
  p.block.kind ≠ .plain || p.block.name ≠ []

def Fault.isMissingBrace (f : Fault) : Bool :=
  match f.cause with
  | .missingBrace _ => true
  | _ => false

theorem isMissingBrace_of_site {f : Fault} (h : f.cause.site ≠ .block) :
    f.isMissingBrace = false := by
  unfold Fault.isMissingBrace
  split
  case h_1 hc =>
      rw [hc] at h
      exact absurd rfl h
  case h_2 => rfl

theorem settle_openers (s : State) (code : List Char) :
    settle s code = { settle { s with stack := [] } code with
      stack := (settle { s with stack := [] } code).stack ++ s.stack } := by
  unfold settle
  dsimp only
  split
  · rfl
  · split <;> rfl

theorem declare_openers (s : State) (line : Nat) (code : List Char) :
    declare line code (settle s code) = { openers s line code with
      stack := (openers s line code).stack ++ s.stack } := by
  rw [settle_openers, openers]
  generalize settle { s with stack := [] } code = b
  unfold declare
  cases opener? code with
  | none => rfl
  | some o =>
      dsimp only
      split
      · rfl
      · split <;> rfl

theorem openers_nil (s : State) (line : Nat) : (openers s line []).stack = [] := by
  have hnone : opener? [] = none := rfl
  simp only [openers, declare, hnone, settle]
  split <;> rfl

theorem opened_nil (s : State) (line : Nat) : opened s line [] = [] := by
  simp only [opened, openers_nil, List.count_nil, Nat.zero_sub]
  rfl

/-- A line puts the blocks that it opens on the stack, and takes one off for each closing brace. -/
theorem stack_step (s : State) (l : List Char) (line : Nat) :
    (step s (l, line)).1.stack =
      ((opened s line (codeOf s.inComment l)).reverse ++ s.stack).drop
        ((codeOf s.inComment l).count '}') := by
  rcases line_cases s.inComment l with hs | hl | ⟨hs, hc⟩ | ⟨hs, hn, hc⟩
  · rw [step_inside hs, hs, codeOf_true, opened_nil]
    rfl
  · rw [step_blank hl, codeOf_blank hl, opened_nil]
    rfl
  · rw [step_comment hs hc, codeOf_comment hc, opened_nil]
    rfl
  · rw [step_of_code hs hn hc, hs, codeOf_code hc]
    simp only [scanCode, blocks, declare_openers, balance, opened, List.reverse_append,
      List.reverse_reverse, List.reverse_replicate, List.append_assoc]

/-- What the scan does about an opener with a brace. -/
def Opening.push? (o : Opening) : Option Push :=
  o.brace.map fun line => ⟨line, o.block⟩

/-- What it does about an opener without one. -/
def Opening.fault? (o : Opening) : Option Fault :=
  if o.brace = none then some o.block.lacksBrace else none

/-- The opener that waits, beside the lines that are to come. -/
def waiting (pending : Option Block) (n : Nat) (ls : List (List Char)) : List Opening :=
  pending.toList.map fun block => ⟨block, braceBelow n ls⟩

/-- The blocks of openers with a brace are opened on line `n`, and the other openers reported. -/
structure Settled (n : Nat) (done : List Opening) (b : Blocks) : Prop where
  pushes : b.stack.reverse.map (Push.mk n) = done.filterMap Opening.push?
  faults : b.faults.filter Fault.isMissingBrace = done.filterMap Opening.fault?

variable {s : State} {n : Nat} {l : List Char} {ls : List (List Char)}

theorem pending_settle (s : State) (code : List Char) : (settle s code).pending = none := by
  unfold settle
  split
  · rfl
  · split <;> rfl

theorem settled_settle (hl : trim l ≠ []) :
    Settled n (waiting s.pending n (l :: ls)) (settle { s with stack := [] } (codeOf false l)) := by
  unfold settle waiting
  dsimp only
  cases s.pending with
  | none => exact ⟨rfl, rfl⟩
  | some b =>
      simp only [Option.toList_some, List.map_cons, List.map_nil, braceBelow, if_neg hl]
      split
      · exact ⟨rfl, rfl⟩
      · exact ⟨rfl, rfl⟩

theorem settled_declare (ls : List (List Char)) {done : List Opening} {code : List Char}
    {b : Blocks} (h : Settled n done b) (hb : b.pending = none) :
    ∃ own, Settled n (done ++ own) (declare n code b) ∧
      (opening? n code ls).toList = own ++ waiting (declare n code b).pending (n + 1) ls := by
  unfold declare opening?
  cases opener? code with
  | none =>
      refine ⟨[], ?_, ?_⟩
      · rw [List.append_nil]
        exact h
      · rw [hb]
        rfl
  | some o =>
      have hnameless : ∀ fs, (fs ++ if o.name = [] then
          [{ line := n, cause := .missingName o.kind }] else []).filter Fault.isMissingBrace =
            fs.filter Fault.isMissingBrace := by
        intro fs
        rw [List.filter_append]
        split
        · exact List.append_nil _
        · exact List.append_nil _
      simp only [Option.map_some, Option.toList_some, List.contains_iff_mem]
      by_cases hbrace : '{' ∈ code
      · -- a brace of its own
        rw [if_pos hbrace, if_pos hbrace]
        refine ⟨[⟨⟨o.kind, o.name, n⟩, some n⟩], ⟨?_, ?_⟩, ?_⟩
        · rw [List.reverse_cons, List.map_append, h.pushes, List.filterMap_append]
          rfl
        · rw [hnameless, h.faults, List.filterMap_append]
          exact (List.append_nil _).symm
        · rw [hb]
          rfl
      · rw [if_neg hbrace, if_neg hbrace]
        by_cases hrest : trim o.rest = []
        · -- nothing behind its name: it waits
          rw [if_pos hrest, if_pos hrest]
          refine ⟨[], ⟨?_, ?_⟩, rfl⟩
          · rw [List.append_nil]
            exact h.pushes
          · rw [hnameless, h.faults, List.append_nil]
        · rw [if_neg hrest, if_neg hrest]
          refine ⟨[⟨⟨o.kind, o.name, n⟩, none⟩], ⟨?_, ?_⟩, ?_⟩
          · rw [h.pushes, List.filterMap_append]
            exact (List.append_nil _).symm
          · rw [List.filter_append, hnameless, h.faults, List.filterMap_append]
            rfl
          · rw [hb]
            rfl

/-- No opener waits inside a block comment, and one that waits has a keyword. -/
structure State.Ready (s : State) : Prop where
  outside : ∀ b ∈ s.pending, s.inComment = false
  keyword : ∀ b ∈ s.pending, b.kind ≠ .plain

theorem kind_of_opener? {code : List Char} {o : Opener} (h : opener? code = some o) :
    o.kind ∈ BlockKind.declared := by
  obtain ⟨kind, hk, h⟩ := List.exists_of_findSome?_eq_some h
  obtain ⟨rest, -, h⟩ := Option.bind_eq_some_iff.1 h
  split at h
  · cases h
    exact hk
  · cases h
    exact hk
  · obtain ⟨_, -, rfl⟩ := Option.map_eq_some_iff.1 h
    exact hk

theorem ne_plain_of_declared : ∀ kind ∈ BlockKind.declared, kind ≠ .plain := by
  decide

theorem keyword_openers (h : ∀ b ∈ s.pending, b.kind ≠ .plain) (code : List Char) :
    (∀ b ∈ (openers s n code).stack, b.kind ≠ .plain) ∧
      ∀ b ∈ (openers s n code).pending, b.kind ≠ .plain := by
  have hpending := pending_settle { s with stack := [] } code
  have hstack : ∀ b ∈ (settle { s with stack := [] } code).stack, b.kind ≠ .plain := by
    unfold settle
    dsimp only
    split
    case h_1 => exact nofun
    case h_2 b hb =>
        split
        · exact List.forall_mem_singleton.2 (h b hb)
        · exact nofun
  unfold openers declare
  cases ho : opener? code with
  | none => exact ⟨hstack, by rw [hpending]; exact nofun⟩
  | some o =>
      have hkind := ne_plain_of_declared o.kind (kind_of_opener? ho)
      dsimp only
      split
      · exact ⟨List.forall_mem_cons.2 ⟨hkind, hstack⟩, by rw [hpending]; exact nofun⟩
      · split
        · exact ⟨hstack, fun _ h => Option.mem_some.1 h ▸ hkind⟩
        · exact ⟨hstack, by rw [hpending]; exact nofun⟩

/-- Of the blocks that a line of code opens, the named ones are those of openers. -/
theorem filter_opened (h : ∀ b ∈ s.pending, b.kind ≠ .plain) (code : List Char) :
    ((opened s n code).map (Push.mk n)).filter Push.isNamed =
      (openers s n code).stack.reverse.map (Push.mk n) := by
  obtain ⟨hstack, -⟩ := keyword_openers (n := n) h code
  have hnamed : ((openers s n code).stack.reverse.map (Push.mk n)).filter Push.isNamed =
      (openers s n code).stack.reverse.map (Push.mk n) := by
    rw [List.filter_eq_self, List.forall_mem_map]
    intro b hb
    have hkind := hstack b (List.mem_reverse.1 hb)
    simp [Push.isNamed, hkind]
  have hplain : ∀ k, ((List.replicate k (Block.mk .plain [] n)).map (Push.mk n)).filter
      Push.isNamed = [] := by
    intro k
    rw [List.map_replicate, List.filter_eq_nil_iff]
    intro p hp
    rw [List.eq_of_mem_replicate hp]
    exact Bool.false_ne_true
  rw [opened, List.map_append, List.filter_append, hnamed, hplain, List.append_nil]

theorem filter_blocks (s : State) (n : Nat) (code : List Char) :
    (blocks s n code).faults.filter Fault.isMissingBrace =
      (openers s n code).faults.filter Fault.isMissingBrace := by
  have hclose : ∀ k, (List.replicate k ({ line := n, cause := .unexpectedClose } : Fault)).filter
      Fault.isMissingBrace = [] := by
    intro k
    rw [List.filter_eq_nil_iff]
    intro f hf
    rw [List.eq_of_mem_replicate hf]
    exact Bool.false_ne_true
  rw [blocks, declare_openers, balance]
  dsimp only
  rw [List.filter_append, hclose, List.append_nil]

/-- The openers that are not settled yet: the one that waits, and those to come. -/
def unsettled (s : State) (n : Nat) (ls : List (List Char)) : List Opening :=
  waiting s.pending n ls ++ openingsFrom s.inComment n ls

/-- A line settles openers: it opens the blocks of those with a brace and reports the others. -/
structure Settles (s : State) (n : Nat) (l : List Char) (ls : List (List Char))
    (done : List Opening) : Prop where
  unsettled : unsettled s n (l :: ls) = done ++ unsettled (step s (l, n)).1 (n + 1) ls
  pushes : ((opened s n (codeOf s.inComment l)).map (Push.mk n)).filter Push.isNamed =
    done.filterMap Opening.push?
  faults : (step s (l, n)).2.filter Fault.isMissingBrace = done.filterMap Opening.fault?

theorem filter_pending (pending : Option Block) :
    (pending.toList.map Block.lacksBrace).filter Fault.isMissingBrace =
      pending.toList.map Block.lacksBrace :=
  List.filter_eq_self.2 (List.forall_mem_map.2 fun _ _ => rfl)

theorem braceBelow_blank (hl : trim l = []) : braceBelow n (l :: ls) = braceBelow (n + 1) ls :=
  if_pos hl

theorem braceBelow_comment (hc : isComment (trim l)) : braceBelow n (l :: ls) = none := by
  have hl : trim l ≠ [] := fun hl => by
    rw [hl] at hc
    exact absurd hc (by decide)
  rw [braceBelow, if_neg hl, codeOf_comment hc]
  exact if_neg nofun

/-- Inside a block comment no opener waits. -/
theorem settles_inside (h : s.Ready) (hs : s.inComment = true) : Settles s n l ls [] := by
  have hpending : s.pending = none := Option.eq_none_iff_forall_not_mem.2 fun b hb => by
    have := h.outside b hb
    rw [hs] at this
    cases this
  refine ⟨?_, ?_, ?_⟩
  · rw [step_inside hs, unsettled, unsettled, openingsFrom, hpending, hs]
    rfl
  · rw [hs, codeOf_true, opened_nil]
    rfl
  · rw [step_inside hs]
    rfl

theorem settles_blank (hl : trim l = []) : Settles s n l ls [] := by
  refine ⟨?_, ?_, ?_⟩
  · rw [step_blank hl, unsettled, unsettled, openingsFrom, codeOf_blank hl, hl, blockAfter_nil,
      waiting, braceBelow_blank hl]
    rfl
  · rw [codeOf_blank hl, opened_nil]
    rfl
  · rw [step_blank hl]
    rfl

/-- At a comment the opener that waits goes without a brace. -/
theorem settles_comment (hs : s.inComment = false) (hc : isComment (trim l)) :
    Settles s n l ls (waiting s.pending n (l :: ls)) := by
  refine ⟨?_, ?_, ?_⟩
  · rw [step_comment hs hc, unsettled, unsettled, openingsFrom, codeOf_comment hc]
    rfl
  · rw [codeOf_comment hc, opened_nil, waiting, braceBelow_comment hc]
    cases s.pending with
    | none => rfl
    | some b => rfl
  · rw [step_comment hs hc, filter_pending, waiting, braceBelow_comment hc]
    cases s.pending with
    | none => rfl
    | some b => rfl

/-- A line of code settles the opener that waits, and its own unless that one waits then. -/
theorem exists_settles_code (h : s.Ready) (hs : s.inComment = false) (hn : trim l ≠ [])
    (hc : isComment (trim l) = false) :
    ∃ done, Settles s n l ls done := by
  obtain ⟨own, hown, hopening⟩ := settled_declare ls (settled_settle (s := s) hn)
    (pending_settle { s with stack := [] } (codeOf false l))
  have hcode : codeOf s.inComment l = code (trim l) := by rw [hs, codeOf_code hc]
  have hdeclare : declare n (codeOf false l) (settle { s with stack := [] } (codeOf false l)) =
      openers s n (code (trim l)) := by rw [codeOf_code hc, openers]
  rw [hdeclare] at hown hopening
  refine ⟨waiting s.pending n (l :: ls) ++ own, ?_, ?_, ?_⟩
  · rw [step_of_code hs hn hc, unsettled, unsettled, openingsFrom, hs, hopening,
      List.append_assoc, List.append_assoc, blockAfter_of_not_isComment hc]
    simp only [scanCode, hs, blocks, declare_openers, balance]
  · rw [hcode, filter_opened h.keyword]
    exact hown.pushes
  · rw [step_of_code hs hn hc, filter_scanCode fun _ => isMissingBrace_of_site, filter_blocks]
    exact hown.faults

theorem step_settles (n : Nat) (l : List Char) (ls : List (List Char)) (h : s.Ready) :
    ∃ done, Settles s n l ls done := by
  rcases line_cases s.inComment l with hs | hl | ⟨hs, hc⟩ | ⟨hs, hn, hc⟩
  · exact ⟨_, settles_inside h hs⟩
  · exact ⟨_, settles_blank hl⟩
  · exact ⟨_, settles_comment hs hc⟩
  · exact exists_settles_code h hs hn hc

theorem step_ready (n : Nat) (l : List Char) (h : s.Ready) : (step s (l, n)).1.Ready := by
  rcases line_cases s.inComment l with hs | hl | ⟨hs, hc⟩ | ⟨hs, hn, hc⟩
  · rw [step_inside hs]
    refine ⟨fun b hb => ?_, h.keyword⟩
    have := h.outside b hb
    rw [hs] at this
    cases this
  · rw [step_blank hl]
    exact h
  · rw [step_comment hs hc]
    exact ⟨nofun, nofun⟩
  · rw [step_of_code hs hn hc]
    refine ⟨fun _ _ => hs, ?_⟩
    have := (keyword_openers (n := n) h.keyword (code (trim l))).2
    simpa only [scanCode, blocks, declare_openers, balance] using this

/-- Over all lines, the blocks of the openers with a brace are opened in order, and the other
openers are reported in order. -/
theorem settled_scan (n : Nat) (ls : List (List Char)) (h : s.Ready) :
    (pushesFrom s n ls).filter Push.isNamed = (unsettled s n ls).filterMap Opening.push? ∧
      (faultsFrom s n ls).filter Fault.isMissingBrace =
        (unsettled s n ls).filterMap Opening.fault? := by
  induction ls generalizing s n with
  | nil =>
      have hopen : (s.stack.reverse.map Block.staysOpen).filter Fault.isMissingBrace = [] := by
        rw [List.filter_eq_nil_iff, List.forall_mem_map]
        exact fun _ _ => Bool.false_ne_true
      have hclosing : (faultsFrom s n []).filter Fault.isMissingBrace =
          s.pending.toList.map Block.lacksBrace := by
        change s.closing.filter Fault.isMissingBrace = _
        rw [State.closing, List.filter_append, hopen, filter_pending, List.append_nil]
      rw [hclosing, unsettled, openingsFrom, waiting, List.append_nil]
      cases s.pending with
      | none => exact ⟨rfl, rfl⟩
      | some b => exact ⟨rfl, rfl⟩
  | cons l ls ih =>
      obtain ⟨done, hdone⟩ := step_settles n l ls h
      obtain ⟨hpushes, hfaults⟩ := ih (n + 1) (step_ready n l h)
      rw [hdone.unsettled, List.filterMap_append, List.filterMap_append, pushesFrom,
        faultsFrom_cons, List.filter_append, List.filter_append, hpushes, hfaults, hdone.pushes,
        hdone.faults]
      exact ⟨rfl, rfl⟩

theorem openingsFrom_lines (b : Bool) (n : Nat) (ls : List (List Char)) :
    (∀ o ∈ openingsFrom b n ls, n ≤ o.block.line) ∧
      (openingsFrom b n ls).Pairwise fun o p => o.block.line < p.block.line := by
  induction ls generalizing b n with
  | nil => exact ⟨nofun, .nil⟩
  | cons l ls ih =>
      obtain ⟨hle, hpairs⟩ := ih (blockAfter b (trim l)) (n + 1)
      have hline : ∀ o ∈ (opening? n (codeOf b l) ls).toList, o.block.line = n := by
        intro o ho
        obtain ⟨_, -, rfl⟩ := Option.map_eq_some_iff.1 (Option.mem_toList.1 ho)
        rfl
      refine ⟨fun o ho => ?_, List.pairwise_append.2 ⟨?_, hpairs, fun o ho p hp => ?_⟩⟩
      · rcases List.mem_append.1 ho with ho | ho
        · exact Nat.le_of_eq (hline o ho).symm
        · exact Nat.le_of_succ_le (hle o ho)
      · cases opening? n (codeOf b l) ls with
        | none => exact .nil
        | some o => exact List.pairwise_singleton ..
      · rw [hline o ho]
        exact hle p hp

/-- What comes of the openers of different lines, at the line of one of them. -/
theorem filter_at_line {α : Type} {os : List Opening} {outcome : Opening → Option α}
    {lineOf : α → Nat} (h : os.Pairwise fun o p => o.block.line < p.block.line)
    (hline : ∀ o, ∀ x ∈ outcome o, lineOf x = o.block.line) {o : Opening} (ho : o ∈ os) :
    (os.filterMap outcome).filter (lineOf · = o.block.line) = (outcome o).toList := by
  obtain ⟨front, back, rfl⟩ := List.append_of_mem ho
  obtain ⟨-, hback, hfront⟩ := List.pairwise_append.1 h
  have hnone : ∀ ps : List Opening, (∀ p ∈ ps, p.block.line ≠ o.block.line) →
      (ps.filterMap outcome).filter (lineOf · = o.block.line) = [] := by
    intro ps hps
    rw [List.filter_eq_nil_iff]
    intro x hx
    obtain ⟨p, hp, hxp⟩ := List.mem_filterMap.1 hx
    rw [decide_eq_true_eq, hline p x hxp]
    exact hps p hp
  have hown : ((outcome o).toList).filter (lineOf · = o.block.line) = (outcome o).toList := by
    rw [List.filter_eq_self]
    intro x hx
    exact decide_eq_true (hline o x (Option.mem_toList.1 hx))
  have hsingle : [o].filterMap outcome = (outcome o).toList := by
    cases h : outcome o <;> simp [h]
  rw [List.append_cons, List.filterMap_append, List.filterMap_append, List.filter_append,
    List.filter_append, hsingle, hown,
    hnone front fun p hp => Nat.ne_of_lt (hfront p hp o List.mem_cons_self),
    hnone back fun p hp => Nat.ne_of_gt (List.rel_of_pairwise_cons hback hp)]
  exact List.append_nil _

/-- The named blocks that are opened for the opener of a line. -/
def opensFor (line : Nat) (ls : List (List Char)) : List Push :=
  ((pushes ls).filter Push.isNamed).filter (·.block.line = line)

/-- The faults at a line that its opener has no brace. -/
def missingAt (line : Nat) (ls : List (List Char)) : List Fault :=
  ((check ls).filter Fault.isMissingBrace).filter (·.line = line)

/-- Every opener is settled once. Either it has a brace, on its line or at the start of the next
line that is not blank: there its block is opened, and no fault is at its line. Or it has none: its
block is not opened, and one fault is at its line. Nothing else opens a named block, and nothing
else is reported to lack a brace. -/
theorem openers_settled (ls : List (List Char)) :
    (∀ s l line, (step s (l, line)).1.stack =
      ((opened s line (codeOf s.inComment l)).reverse ++ s.stack).drop
        ((codeOf s.inComment l).count '}')) ∧
    (∀ o ∈ openings ls,
      (∃ line, o.brace = some line ∧ opensFor o.block.line ls = [⟨line, o.block⟩] ∧
          missingAt o.block.line ls = []) ∨
        o.brace = none ∧ opensFor o.block.line ls = [] ∧
          missingAt o.block.line ls = [o.block.lacksBrace]) ∧
    (∀ p ∈ pushes ls, p.isNamed → ∃ o ∈ openings ls, o.brace = some p.line ∧ p.block = o.block) ∧
    ∀ f ∈ check ls, f.isMissingBrace →
      ∃ o ∈ openings ls, o.brace = none ∧ f = o.block.lacksBrace := by
  obtain ⟨hpushes, hfaults⟩ :=
    settled_scan (s := {}) 1 ls ⟨nofun, nofun⟩
  change (pushes ls).filter Push.isNamed = (openings ls).filterMap Opening.push? at hpushes
  change (check ls).filter Fault.isMissingBrace = (openings ls).filterMap Opening.fault? at hfaults
  have hlines := (openingsFrom_lines false 1 ls).2
  refine ⟨stack_step, fun o ho => ?_, fun p hp hnamed => ?_, fun f hf hmissing => ?_⟩
  · have hopens : opensFor o.block.line ls = o.push?.toList := by
      rw [opensFor, hpushes]
      refine filter_at_line hlines (fun p x hx => ?_) ho
      obtain ⟨_, -, rfl⟩ := Option.map_eq_some_iff.1 hx
      rfl
    have hmissing : missingAt o.block.line ls = o.fault?.toList := by
      rw [missingAt, hfaults]
      refine filter_at_line hlines (fun p x hx => ?_) ho
      obtain ⟨-, he⟩ := Option.ite_none_right_eq_some.1 hx
      cases he
      rfl
    rw [hopens, hmissing, Opening.push?, Opening.fault?]
    cases o.brace with
    | some line => exact .inl ⟨line, rfl, rfl, rfl⟩
    | none => exact .inr ⟨rfl, rfl, rfl⟩
  · have hmem := List.mem_filter.2 ⟨hp, hnamed⟩
    rw [hpushes] at hmem
    obtain ⟨o, ho, he⟩ := List.mem_filterMap.1 hmem
    obtain ⟨line, hline, rfl⟩ := Option.map_eq_some_iff.1 he
    exact ⟨o, ho, hline, rfl⟩
  · have hmem := List.mem_filter.2 ⟨hf, hmissing⟩
    rw [hfaults] at hmem
    obtain ⟨o, ho, he⟩ := List.mem_filterMap.1 hmem
    obtain ⟨hnone, he⟩ := Option.ite_none_right_eq_some.1 he
    exact ⟨o, ho, hnone, (Option.some.inj he).symm⟩

example :
    let ls := ["message A".toList, [], "\x7b".toList, "enum B".toList, "// c".toList]
    opensFor 1 ls = [⟨3, ⟨.message, ['A'], 1⟩⟩] ∧
      missingAt 4 ls = [Block.lacksBrace ⟨.enum, ['B'], 4⟩] := by
  decide

end SchemaLint.Structure
