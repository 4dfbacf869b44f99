import SchemaLint.Proofs.Line.Code
import SchemaLint.Structure.Scan

/-! The open blocks of the structural scan. Whatever the line, it opens as many blocks as its code
has opening braces, and closes as many as it has closing ones or reports those that close
nothing. -/

namespace SchemaLint.Structure
open SchemaLint.Text SchemaLint.Line

def Fault.isUnexpectedClose (f : Fault) : Bool :=
  f.cause = .unexpectedClose

def Fault.isUnclosed (f : Fault) : Bool :=
  match f.cause with
  | .unclosed _ => true
  | _ => false

/-- None of the faults is about a brace that closes nothing or a block that stays open. -/
def Unnested (faults : List Fault) : Prop :=
  ∀ f ∈ faults, f.isUnexpectedClose = false ∧ f.isUnclosed = false

@[simp] theorem unnested_nil : Unnested [] := by simp [Unnested]

@[simp] theorem unnested_cons {f : Fault} {fs : List Fault} :
    Unnested (f :: fs) ↔ (f.isUnexpectedClose = false ∧ f.isUnclosed = false) ∧ Unnested fs :=
  List.forall_mem_cons

@[simp] theorem unnested_append {fs gs : List Fault} :
    Unnested (fs ++ gs) ↔ Unnested fs ∧ Unnested gs :=
  List.forall_mem_append

theorem Unnested.count {fs : List Fault} (h : Unnested fs) :
    fs.countP Fault.isUnexpectedClose = 0 ∧ fs.countP Fault.isUnclosed = 0 := by
  rw [List.countP_eq_zero, List.countP_eq_zero]
  exact ⟨fun f hf => by simp [(h f hf).1], fun f hf => by simp [(h f hf).2]⟩

theorem opener?_of_brace {code : List Char} (h : code.head? = some '{') : opener? code = none := by
  obtain ⟨t, rfl⟩ := List.head?_eq_some_iff.1 h
  rfl

/-- The blocks after the openers of a line, before its braces: `n` were open, and one more is if a
brace of the line is claimed. -/
structure Claims (n : Nat) (code : List Char) (b : Blocks) : Prop where
  length : b.stack.length = n + if b.claimed then 1 else 0
  brace : b.claimed → '{' ∈ code
  unnested : Unnested b.faults

theorem claims_settle (s : State) (code : List Char) :
    Claims s.stack.length code (settle s code) := by
  unfold settle
  split
  case h_1 => exact ⟨rfl, nofun, unnested_nil⟩
  case h_2 =>
      split
      case isTrue h => exact ⟨rfl, fun _ => List.mem_of_mem_head? h, unnested_nil⟩
      case isFalse => exact ⟨rfl, nofun, unnested_cons.2 ⟨⟨rfl, rfl⟩, unnested_nil⟩⟩

theorem claims_declare {n line : Nat} {code : List Char} {b : Blocks} (h : Claims n code b)
    (hb : b.claimed → code.head? = some '{') : Claims n code (declare line code b) := by
  unfold declare
  split
  case h_1 => exact h
  case h_2 o ho =>
      have hc : b.claimed = false := by
        refine Bool.eq_false_iff.2 fun hc => ?_
        rw [opener?_of_brace (hb hc)] at ho
        cases ho
      have hlength := h.length
      rw [hc] at hlength
      have hnameless : Unnested
          (if o.name = [] then [{ line, cause := .missingName o.kind }] else []) := by
        split
        · exact unnested_cons.2 ⟨⟨rfl, rfl⟩, unnested_nil⟩
        · exact unnested_nil
      have hfaults := unnested_append.2 ⟨h.unnested, hnameless⟩
      dsimp only
      split
      case isTrue hbrace =>
          exact ⟨by simpa using hlength, fun _ => by simpa using hbrace, hfaults⟩
      case isFalse =>
          split
          · exact ⟨by simpa [hc] using hlength, by simp [hc], hfaults⟩
          · refine ⟨by simpa [hc] using hlength, by simp [hc], unnested_append.2 ⟨hfaults, ?_⟩⟩
            exact unnested_cons.2 ⟨⟨rfl, rfl⟩, unnested_nil⟩

theorem count_balance {n line : Nat} {code : List Char} {b : Blocks} (h : Claims n code b) :
    (balance line code b).stack.length + code.count '}' =
        n + code.count '{' + (balance line code b).faults.countP Fault.isUnexpectedClose ∧
      (balance line code b).faults.countP Fault.isUnclosed = 0 := by
  obtain ⟨hclose, hopen⟩ := h.unnested.count
  have hlength := h.length
  have hclaim : (if b.claimed then 1 else 0) ≤ code.count '{' := by
    split
    case isTrue hc => exact List.count_pos_iff.2 (h.brace hc)
    case isFalse => exact Nat.zero_le _
  have hpops : ∀ m, (List.replicate m
      ({ line, cause := .unexpectedClose } : Fault)).countP Fault.isUnexpectedClose = m := by
    intro m
    rw [List.countP_replicate]
    rfl
  simp only [balance, List.countP_append, hclose, hopen, hpops, List.length_drop,
    List.length_append, List.length_replicate, List.countP_replicate]
  refine ⟨?_, by rfl⟩
  omega

theorem claims_blocks (s : State) (line : Nat) (code : List Char) :
    Claims s.stack.length code (declare line code (settle s code)) := by
  refine claims_declare (claims_settle s code) ?_
  unfold settle
  split
  · exact nofun
  · split
    case isTrue h => exact fun _ => h
    case isFalse => exact nofun

theorem count_blocks (s : State) (line : Nat) (code : List Char) :
    (blocks s line code).stack.length + code.count '}' =
        s.stack.length + code.count '{' +
          (blocks s line code).faults.countP Fault.isUnexpectedClose ∧
      (blocks s line code).faults.countP Fault.isUnclosed = 0 :=
  count_balance (claims_blocks s line code)

/-- What a cause is found on: the braces and blocks of a line, a place inside its statement, or the
statement as a whole. -/
inductive Site
  | block | place | statement
  deriving DecidableEq

def Cause.site : Cause → Site
  | .missingName _ | .missingBrace _ | .unexpectedClose | .unclosed _ => .block
  | .trailingContent _ | .lacksSemicolon => .place
  | _ => .statement

theorem site_member (context : Option BlockKind) (code : List Char) :
    ∀ c ∈ memberCauses context code, c.site = .statement := by
  unfold memberCauses fieldCauses valueCauses
  repeat' split
  all_goals simp [Cause.site]

theorem site_rpc (context : Option BlockKind) (code : List Char) :
    ∀ c ∈ rpcCauses context code ++ syntaxCauses code, c.site = .statement := by
  rw [List.forall_mem_append]
  unfold rpcCauses syntaxCauses
  constructor <;> repeat' split
  all_goals simp [Cause.site]

theorem site_trailing (line indent : Nat) (code : List Char) :
    ∀ f ∈ trailingFaults line indent code, f.line = line ∧ f.cause.site = .place := by
  simp only [trailingFaults]
  split
  · exact nofun
  · exact List.forall_mem_singleton.2 ⟨rfl, rfl⟩

theorem site_topLevel (atTopLevel : Bool) (code : List Char) :
    ∀ c ∈ topLevelCauses atTopLevel code, c.site = .statement := by
  unfold topLevelCauses
  split
  · exact List.forall_mem_singleton.2 rfl
  · exact nofun

theorem site_semicolon (line indent : Nat) (code : List Char) :
    ∀ f ∈ semicolonFaults line indent code, f.line = line ∧ f.cause.site = .place := by
  rw [semicolonFaults]
  split
  · exact List.forall_mem_singleton.2 ⟨rfl, rfl⟩
  · exact nofun

theorem site_blocks (s : State) (line : Nat) (code : List Char) :
    ∀ f ∈ (blocks s line code).faults, f.cause.site = .block := by
  have hsettle : ∀ f ∈ (settle s code).faults, f.cause.site = .block := by
    unfold settle
    split
    · exact nofun
    · split
      · exact nofun
      · exact List.forall_mem_singleton.2 rfl
  have hdeclare : ∀ f ∈ (declare line code (settle s code)).faults, f.cause.site = .block := by
    unfold declare
    split
    case h_1 => exact hsettle
    case h_2 o _ =>
        have hnameless : ∀ f ∈ (settle s code).faults ++ if o.name = [] then
            [{ line, cause := .missingName o.kind }] else [], f.cause.site = .block := by
          rw [List.forall_mem_append]
          refine ⟨hsettle, ?_⟩
          split
          · exact List.forall_mem_singleton.2 rfl
          · exact nofun
        dsimp only
        split
        · exact hnameless
        · split
          · exact hnameless
          · exact List.forall_mem_append.2 ⟨hnameless, List.forall_mem_singleton.2 rfl⟩
  refine List.forall_mem_append.2 ⟨hdeclare, fun f hf => ?_⟩
  rw [List.eq_of_mem_replicate hf]
  rfl

/-- Of the faults of a line of code, those found on blocks are the faults of its blocks. -/
theorem filter_scanCode {p : Fault → Bool} (hp : ∀ f, f.cause.site ≠ .block → p f = false)
    (s : State) (line indent : Nat) (code : List Char) :
    (scanCode s line indent code).2.filter p = (blocks s line code).faults.filter p := by
  have hcauses : ∀ causes : List Cause, (∀ c ∈ causes, c.site = .statement) →
      (causes.map fun cause => ({ line, cause } : Fault)).filter p = [] := by
    intro causes h
    rw [List.filter_eq_nil_iff, List.forall_mem_map]
    intro c hc
    rw [hp _ (by rw [h c hc]; exact nofun)]
    exact Bool.false_ne_true
  have hplaced : ∀ fs : List Fault, (∀ f ∈ fs, f.line = line ∧ f.cause.site = .place) →
      fs.filter p = [] := by
    intro fs h
    rw [List.filter_eq_nil_iff]
    intro f hf
    rw [hp f (by rw [(h f hf).2]; exact nofun)]
    exact Bool.false_ne_true
  simp only [scanCode, List.filter_append, hcauses _ (site_member s.context code),
    hcauses _ (site_rpc s.context code), hcauses _ (site_topLevel s.atTopLevel code),
    hplaced _ (site_trailing line indent code), hplaced _ (site_semicolon line indent code),
    List.nil_append, List.append_nil]

theorem isUnexpectedClose_of_site {f : Fault} (h : f.cause.site ≠ .block) :
    f.isUnexpectedClose = false := by
  refine decide_eq_false fun hc => h ?_
  rw [hc]
  rfl

theorem isUnclosed_of_site {f : Fault} (h : f.cause.site ≠ .block) : f.isUnclosed = false := by
  unfold Fault.isUnclosed
  split
  case h_1 hc =>
      rw [hc] at h
      exact absurd rfl h
  case h_2 => rfl

/-- Of the faults of a line of code, only those of its blocks are about nesting. -/
theorem countP_scanCode (s : State) (line indent : Nat) (code : List Char) :
    (scanCode s line indent code).2.countP Fault.isUnexpectedClose =
        (blocks s line code).faults.countP Fault.isUnexpectedClose ∧
      (scanCode s line indent code).2.countP Fault.isUnclosed =
        (blocks s line code).faults.countP Fault.isUnclosed := by
  simp only [List.countP_eq_length_filter, filter_scanCode fun _ => isUnexpectedClose_of_site,
    filter_scanCode fun _ => isUnclosed_of_site, and_self]

theorem count_scanCode (s : State) (line indent : Nat) (code : List Char) :
    (scanCode s line indent code).1.stack.length + code.count '}' =
        s.stack.length + code.count '{' +
          (scanCode s line indent code).2.countP Fault.isUnexpectedClose ∧
      (scanCode s line indent code).2.countP Fault.isUnclosed = 0 := by
  obtain ⟨hclose, hopen⟩ := countP_scanCode s line indent code
  rw [hclose, hopen]
  exact count_blocks s line code

theorem step_inside {s : State} (hs : s.inComment = true) (l : List Char) (n : Nat) :
    step s (l, n) = ({ s with inComment := blockAfter s.inComment (trim l) }, []) := by
  unfold step
  dsimp only
  rw [if_pos hs]

theorem step_blank {s : State} {l : List Char} (hl : trim l = []) (n : Nat) :
    step s (l, n) = (s, []) := by
  unfold step
  dsimp only
  rw [hl, blockAfter_nil]
  split
  · rfl
  · rfl

theorem step_comment {s : State} {l : List Char} (hs : s.inComment = false)
    (hc : isComment (trim l)) (n : Nat) :
    step s (l, n) =
      ({ s with inComment := blockAfter s.inComment (trim l), pending := none },
        s.pending.toList.map Block.lacksBrace) := by
  have hl : trim l ≠ [] := fun hl => by
    rw [hl] at hc
    exact absurd hc (by decide)
  simp only [step, hs, hl, hc, Bool.false_eq_true, if_false, if_true]

theorem step_of_code {s : State} {l : List Char} (hs : s.inComment = false) (hn : trim l ≠ [])
    (hc : isComment (trim l) = false) (n : Nat) :
    step s (l, n) = scanCode s n (l.takeWhile isBlank).length (code (trim l)) := by
  simp only [step, hs, hn, hc, Bool.false_eq_true, if_false]

theorem unnested_pending (pending : Option Block) :
    Unnested (pending.toList.map Block.lacksBrace) := by
  cases pending with
  | none => exact unnested_nil
  | some b => exact unnested_cons.2 ⟨⟨rfl, rfl⟩, unnested_nil⟩

theorem inComment_step (s : State) (l : List Char) (line : Nat) :
    (step s (l, line)).1.inComment = blockAfter s.inComment (trim l) := by
  unfold step
  dsimp only
  split
  case isTrue => rfl
  case isFalse hs =>
      split
      case isTrue hl => rw [hl, blockAfter_nil]
      case isFalse =>
          split
          case isTrue => rfl
          case isFalse hc =>
              have hs : s.inComment = false := eq_false_of_ne_true hs
              rw [hs, blockAfter_of_not_isComment (eq_false_of_ne_true hc)]
              exact hs

/-- One line opens as many blocks as its code has opening braces, and closes one or reports it for
each closing brace. -/
theorem count_step (s : State) (l : List Char) (line : Nat) :
    (step s (l, line)).1.stack.length + (codeOf s.inComment l).count '}' =
        s.stack.length + (codeOf s.inComment l).count '{' +
          (step s (l, line)).2.countP Fault.isUnexpectedClose ∧
      (step s (l, line)).2.countP Fault.isUnclosed = 0 := by
  unfold step
  dsimp only
  split
  case isTrue hs =>
      rw [hs, codeOf_true]
      exact ⟨rfl, rfl⟩
  case isFalse hs =>
      rw [eq_false_of_ne_true hs]
      split
      case isTrue hl =>
          rw [codeOf_blank hl]
          exact ⟨rfl, rfl⟩
      case isFalse =>
          split
          case isTrue hc =>
              obtain ⟨hclose, hopen⟩ := (unnested_pending s.pending).count
              rw [codeOf_comment hc]
              exact ⟨by rw [hclose]; rfl, hopen⟩
          case isFalse hc =>
              rw [codeOf_code (eq_false_of_ne_true hc)]
              exact count_scanCode ..

theorem scan_cons (s : State) (l : List Char) (ls : List (List Char)) (n : Nat) :
    scan s ((l :: ls).zipIdx n) =
      ((scan (step s (l, n)).1 (ls.zipIdx (n + 1))).1,
        (step s (l, n)).2 ++ (scan (step s (l, n)).1 (ls.zipIdx (n + 1))).2) :=
  Pass.run_zipIdx_cons ..

/-- The faults that lines from line `n` on have, and those of the end. -/
def faultsFrom (s : State) (n : Nat) (ls : List (List Char)) : List Fault :=
  (scan s (ls.zipIdx n)).2 ++ (scan s (ls.zipIdx n)).1.closing

theorem check_eq (ls : List (List Char)) : check ls = faultsFrom {} 1 ls := rfl

theorem faultsFrom_cons (s : State) (n : Nat) (l : List Char) (ls : List (List Char)) :
    faultsFrom s n (l :: ls) = (step s (l, n)).2 ++ faultsFrom (step s (l, n)).1 (n + 1) ls := by
  rw [faultsFrom, scan_cons, List.append_assoc, faultsFrom]

theorem scan_append (s : State) (ls ms : List (List Char)) (n : Nat) :
    scan s ((ls ++ ms).zipIdx n) =
      ((scan (scan s (ls.zipIdx n)).1 (ms.zipIdx (n + ls.length))).1,
        (scan s (ls.zipIdx n)).2 ++
          (scan (scan s (ls.zipIdx n)).1 (ms.zipIdx (n + ls.length))).2) :=
  Pass.run_zipIdx_append ..

theorem faultsFrom_append (s : State) (n : Nat) (ls ms : List (List Char)) :
    faultsFrom s n (ls ++ ms) =
      (scan s (ls.zipIdx n)).2 ++ faultsFrom (scan s (ls.zipIdx n)).1 (n + ls.length) ms := by
  rw [faultsFrom, scan_append, List.append_assoc, faultsFrom]

theorem inComment_scan (s : State) (ls : List (List Char)) (n : Nat) :
    (scan s (ls.zipIdx n)).1.inComment = blockAfterAll s.inComment ls := by
  induction ls generalizing s n with
  | nil => rfl
  | cons l ls ih =>
      rw [scan_cons, ih, inComment_step]
      rfl

theorem count_scan (s : State) (ls : List (List Char)) (n : Nat) :
    (scan s (ls.zipIdx n)).1.stack.length + (codeOfAll s.inComment ls).count '}' =
        s.stack.length + (codeOfAll s.inComment ls).count '{' +
          (scan s (ls.zipIdx n)).2.countP Fault.isUnexpectedClose ∧
      (scan s (ls.zipIdx n)).2.countP Fault.isUnclosed = 0 := by
  induction ls generalizing s n with
  | nil => exact ⟨rfl, rfl⟩
  | cons l ls ih =>
      obtain ⟨hstep, hopen⟩ := count_step s l n
      obtain ⟨hscan, hmore⟩ := ih (step s (l, n)).1 (n + 1)
      rw [inComment_step] at hscan
      rw [scan_cons, codeOfAll]
      simp only [List.count_append, List.countP_append, hopen, hmore, and_true]
      omega

/-- At the end every open block is reported, and nothing else about nesting. -/
theorem count_closing (s : State) :
    s.closing.countP Fault.isUnexpectedClose = 0 ∧
      s.closing.countP Fault.isUnclosed = s.stack.length := by
  obtain ⟨hclose, hopen⟩ := (unnested_pending s.pending).count
  rw [State.closing, List.countP_append, List.countP_append, hclose, hopen, List.countP_map,
    List.countP_map, Nat.zero_add, Nat.zero_add]
  refine ⟨List.countP_eq_zero.2 fun b _ => by simp [Block.staysOpen, Fault.isUnexpectedClose], ?_⟩
  have hall : s.stack.reverse.countP (Fault.isUnclosed ∘ Block.staysOpen) =
      s.stack.reverse.length := List.countP_eq_length.2 fun b _ => rfl
  rw [hall, List.length_reverse]

end SchemaLint.Structure
