import SchemaLint.Proofs.Structure.Spacing

/-! Where structural faults are. Every fault is at a line that the scan has read: its own, or the
line of an opener that the scan remembers. Most faults are at the start of their line; content after
a semicolon is reported behind the semicolon, and a missing semicolon at the end of the code. -/

namespace SchemaLint.Line
open SchemaLint.Text SchemaLint.Layout

/-- The line up to the last character of its code. -/
def upToCode (l : List Char) : List Char :=
  trimEnd (beforeRemark l)

theorem upToCode_isPrefix (l : List Char) : upToCode l <+: l :=
  (trimEnd_isPrefix _).trans ⟨remark l, beforeRemark_append_remark l⟩

theorem upToCode_eq {l : List Char} (hnl : '\n' ∉ l) (h : code (trim l) ≠ []) :
    upToCode l = l.takeWhile isBlank ++ code (trim l) := by
  have hg : Blank (l.takeWhile isBlank) := fun c hc => List.mem_takeWhile_imp hc
  have hl : l.takeWhile isBlank ++ trimStart l = l := List.takeWhile_append_dropWhile
  have hbefore : beforeRemark l = l.takeWhile isBlank ++ beforeRemark (trimStart l) := by
    have := (remark_append_of_no_slash (no_slash_of_blank hg) (trimStart l)).2
    rwa [hl] at this
  have hcode : code (trim l) = trim (beforeRemark (trimStart l)) := by
    rw [code_trim hnl, code_eq hnl, hbefore, trim_append_left hg]
  have hsolid : StartsSolid (beforeRemark (trimStart l)) := by
    have hp : beforeRemark (trimStart l) <+: trimStart l :=
      ⟨_, beforeRemark_append_remark (trimStart l)⟩
    intro c hc
    obtain ⟨k, hk⟩ := hp
    exact startsSolid_trimStart l c (hk ▸ List.mem_head?_append_of_mem_head? hc)
  have hblank : ¬ Blank (beforeRemark (trimStart l)) := by
    rw [← trim_eq_nil_iff, ← hcode]
    exact h
  rw [upToCode, hbefore, trimEnd_append_of_not_blank _ hblank, hcode, trim, hsolid.trimStart]

end SchemaLint.Line

namespace SchemaLint.Structure
open SchemaLint.Text SchemaLint.Line

/-- The column, counted from one, is that of the character behind the last semicolon of the code of
a line, and the content is what follows there. -/
def FollowsSemicolon (l content : List Char) (column : Int) : Prop :=
  ∃ front rest, upToCode l = front ++ ';' :: rest ∧ ';' ∉ rest ∧ trim rest = content ∧
    content ≠ [] ∧ column = front.length + 2

/-- The column at which a cause is reported on a line. -/
def Cause.At (l : List Char) (column : Nat) : Cause → Prop
  | .trailingContent content => FollowsSemicolon l content column
  | .lacksSemicolon => upToCode l ≠ [] ∧ column = (upToCode l).length
  | _ => column = 1

theorem column_of_at {l : List Char} {column : Nat} {cause : Cause}
    (h : cause.At l column) : 1 ≤ column ∧ column ≤ max 1 l.length := by
  have hlength := (upToCode_isPrefix l).length_le
  cases cause with
  | trailingContent content =>
      obtain ⟨front, rest, hup, -, hcontent, hne, hcolumn⟩ := h
      have hrest : 0 < rest.length := List.length_pos_iff.2 fun hnil => by
        rw [hnil, trim_nil] at hcontent
        exact hne hcontent.symm
      rw [hup, List.length_append, List.length_cons] at hlength
      omega
  | lacksSemicolon =>
      obtain ⟨hne, rfl⟩ := h
      have := List.length_pos_iff.2 hne
      omega
  | _ =>
      obtain rfl : column = 1 := h
      omega

/-- The fault is at the start of its line, whatever the line is. -/
def Fault.AtStart (f : Fault) : Prop :=
  ∀ l, f.cause.At l f.column

/-- The fault is at a line of the source and at the column of its cause. -/
def Fault.PointsInto (ls : List (List Char)) (f : Fault) : Prop :=
  ∃ l, (l, f.line) ∈ ls.zipIdx 1 ∧ f.cause.At l f.column

/-- Blocks come from the state or from the line, and so do faults: from the opener that waits, or
from the start of the line. -/
structure Origin (s : State) (line : Nat) (b : Blocks) : Prop where
  stack : ∀ block ∈ b.stack, block ∈ s.stack ∨ block ∈ s.pending ∨ block.line = line
  pending : ∀ block ∈ b.pending, block.line = line
  faults : ∀ f ∈ b.faults, (∃ block ∈ s.pending, f = block.lacksBrace) ∨ f.line = line ∧ f.AtStart

variable {s : State} {line : Nat} {text : List Char}

theorem origin_settle : Origin s line (settle s text) := by
  unfold settle
  split
  case h_1 => exact ⟨fun _ h => .inl h, nofun, nofun⟩
  case h_2 waiting hpending =>
      split
      case isTrue =>
          refine ⟨fun block h => ?_, nofun, nofun⟩
          rcases List.mem_cons.1 h with rfl | h
          · exact .inr (.inl hpending)
          · exact .inl h
      case isFalse =>
          refine ⟨fun _ h => .inl h, nofun, fun f h => ?_⟩
          exact .inl ⟨waiting, hpending, List.mem_singleton.1 h⟩

theorem Origin.declare {b : Blocks} (h : Origin s line b) :
    Origin s line (declare line text b) := by
  unfold Structure.declare
  split
  case h_1 => exact h
  case h_2 o _ =>
      have hnameless : ∀ f ∈ b.faults ++
          (if o.name = [] then [{ line, cause := .missingName o.kind }] else []),
          (∃ block ∈ s.pending, f = block.lacksBrace) ∨ f.line = line ∧ f.AtStart := by
        refine List.forall_mem_append.2 ⟨h.faults, ?_⟩
        split
        · exact List.forall_mem_singleton.2 (.inr ⟨rfl, fun _ => rfl⟩)
        · exact nofun
      dsimp only
      split
      case isTrue =>
          refine ⟨List.forall_mem_cons.2 ⟨.inr (.inr rfl), h.stack⟩, h.pending, hnameless⟩
      case isFalse =>
          split
          · exact ⟨h.stack, fun block hb => by cases hb; rfl, hnameless⟩
          · refine ⟨h.stack, h.pending, List.forall_mem_append.2 ⟨hnameless, ?_⟩⟩
            exact List.forall_mem_singleton.2 (.inr ⟨rfl, fun _ => rfl⟩)

theorem Origin.balance {b : Blocks} (h : Origin s line b) :
    Origin s line (balance line text b) := by
  refine ⟨fun block hb => ?_, h.pending, List.forall_mem_append.2 ⟨h.faults, fun f hf => ?_⟩⟩
  · rcases List.mem_append.1 (List.mem_of_mem_drop hb) with hb | hb
    · obtain rfl := List.eq_of_mem_replicate hb
      exact .inr (.inr rfl)
    · exact h.stack block hb
  · obtain rfl := List.eq_of_mem_replicate hf
    exact .inr ⟨rfl, fun _ => rfl⟩

theorem origin_blocks : Origin s line (blocks s line text) :=
  origin_settle.declare.balance

theorem at_member (context : Option BlockKind) (text l : List Char) :
    ∀ cause ∈ memberCauses context text, cause.At l 1 := by
  unfold memberCauses fieldCauses valueCauses
  repeat' split
  all_goals simp [Cause.At]

theorem at_statement (context : Option BlockKind) (text l : List Char) :
    ∀ cause ∈ rpcCauses context text ++ syntaxCauses text, cause.At l 1 := by
  rw [List.forall_mem_append]
  unfold rpcCauses syntaxCauses
  constructor <;> repeat' split
  all_goals simp [Cause.At]

theorem at_topLevel (atTopLevel : Bool) (text l : List Char) :
    ∀ cause ∈ topLevelCauses atTopLevel text, cause.At l 1 := by
  unfold topLevelCauses
  split <;> simp [Cause.At]

theorem at_map {causes : List Cause} {l : List Char} (h : ∀ cause ∈ causes, cause.At l 1)
    {f : Fault} (hf : f ∈ causes.map fun cause => { line, cause }) :
    f.line = line ∧ f.cause.At l f.column := by
  obtain ⟨cause, hc, rfl⟩ := List.mem_map.1 hf
  exact ⟨rfl, h cause hc⟩

/-- Content after a semicolon is reported at the character behind the last semicolon. -/
theorem at_trailing {l : List Char} (hnl : '\n' ∉ l) {f : Fault}
    (h : f ∈ trailingFaults line (l.takeWhile isBlank).length (code (trim l))) :
    f.line = line ∧ f.cause.At l f.column := by
  simp only [trailingFaults] at h
  split at h
  case isTrue => cases h
  case isFalse hnone =>
      obtain rfl := List.mem_singleton.1 h
      simp only [Bool.or_eq_true, Bool.not_eq_true', not_or, decide_eq_true_eq] at hnone
      obtain ⟨⟨⟨⟨hsemicolon, -⟩, hcontent⟩, -⟩, -⟩ := hnone
      have hmem : ';' ∈ code (trim l) := by simpa using hsemicolon
      obtain ⟨front, rest, hrest, hcode⟩ := exists_last_semicolon hmem
      have hup := upToCode_eq hnl (List.ne_nil_of_mem hmem)
      refine ⟨rfl, l.takeWhile isBlank ++ front, rest, ?_, hrest, ?_, hcontent, ?_⟩
      · rw [hup, hcode, List.append_assoc]
      · rw [hcode, afterLastSemicolon_append hrest]
      · simp only [hcode, afterLastSemicolon_append hrest, List.length_append, List.length_cons]
        omega

/-- A missing semicolon is reported at the last character of the code. -/
theorem at_semicolon {l : List Char} (hnl : '\n' ∉ l) {f : Fault}
    (h : f ∈ semicolonFaults line (l.takeWhile isBlank).length (code (trim l))) :
    f.line = line ∧ f.cause.At l f.column := by
  unfold semicolonFaults at h
  split at h
  case isTrue hlacks =>
      obtain rfl := List.mem_singleton.1 h
      have hne : code (trim l) ≠ [] := fun hnil => by
        rw [hnil] at hlacks
        exact absurd hlacks (by decide)
      have hup := upToCode_eq hnl hne
      refine ⟨rfl, ?_, ?_⟩
      · rw [hup]
        exact List.append_ne_nil_of_right_ne_nil _ hne
      · rw [hup, List.length_append]
  case isFalse => cases h

/-- A fault that a line brings up is about the opener that waits, or at the column of its cause on
the line. -/
theorem origin_scanCode {l : List Char} (hnl : '\n' ∉ l) {f : Fault}
    (h : f ∈ (scanCode s line (l.takeWhile isBlank).length (code (trim l))).2) :
    (∃ block ∈ s.pending, f = block.lacksBrace) ∨ f.line = line ∧ f.cause.At l f.column := by
  simp only [scanCode, List.mem_append, or_assoc] at h
  rcases h with h | h | h | h | h | h
  · exact .inr (at_map (at_member _ _ l) h)
  · rcases origin_blocks.faults f h with h | ⟨hline, hstart⟩
    · exact .inl h
    · exact .inr ⟨hline, hstart l⟩
  · exact .inr (at_map (at_statement _ _ l) h)
  · exact .inr (at_trailing hnl h)
  · exact .inr (at_map (at_topLevel _ _ l) h)
  · exact .inr (at_semicolon hnl h)

/-- The lines that the scan remembers are lines of the source. -/
structure State.Numbered (ls : List (List Char)) (s : State) : Prop where
  stack : ∀ block ∈ s.stack, Line.Numbered ls block.line
  pending : ∀ block ∈ s.pending, Line.Numbered ls block.line

theorem pointsInto_lacksBrace {ls : List (List Char)} {b : Block} (h : Line.Numbered ls b.line) :
    b.lacksBrace.PointsInto ls := by
  obtain ⟨l, hl⟩ := h
  exact ⟨l, hl, rfl⟩

theorem pointsInto_pending {ls : List (List Char)} (h : s.Numbered ls) :
    ∀ f ∈ s.pending.toList.map Block.lacksBrace, f.PointsInto ls := by
  intro f hf
  obtain ⟨b, hb, rfl⟩ := List.mem_map.1 hf
  exact pointsInto_lacksBrace (h.pending b (Option.mem_toList.1 hb))

theorem step_pointsInto {ls : List (List Char)} (hnl : ∀ l ∈ ls, '\n' ∉ l) (h : s.Numbered ls)
    {item : List Char × Nat} (hitem : item ∈ ls.zipIdx 1) :
    (step s item).1.Numbered ls ∧ ∀ f ∈ (step s item).2, f.PointsInto ls := by
  obtain ⟨l, line⟩ := item
  unfold step
  dsimp only
  split
  case isTrue => exact ⟨⟨h.stack, h.pending⟩, nofun⟩
  case isFalse =>
      split
      case isTrue => exact ⟨h, nofun⟩
      case isFalse =>
          split
          case isTrue => exact ⟨⟨h.stack, nofun⟩, pointsInto_pending h⟩
          case isFalse =>
              have horigin : Origin s line (blocks s line (code (trim l))) := origin_blocks
              refine ⟨⟨fun b hb => ?_, fun b hb => ?_⟩, fun f hf => ?_⟩
              · rcases horigin.stack b hb with hb | hb | rfl
                · exact h.stack b hb
                · exact h.pending b hb
                · exact ⟨l, hitem⟩
              · exact ⟨l, horigin.pending b hb ▸ hitem⟩
              · rcases origin_scanCode (hnl l (List.fst_mem_of_mem_zipIdx hitem)) hf with
                  ⟨b, hb, rfl⟩ | ⟨rfl, hat⟩
                · exact pointsInto_lacksBrace (h.pending b hb)
                · exact ⟨l, hitem, hat⟩

theorem check_pointsInto {ls : List (List Char)} (hnl : ∀ l ∈ ls, '\n' ∉ l) :
    ∀ f ∈ check ls, f.PointsInto ls := by
  obtain ⟨hstate, hfaults⟩ := Pass.run_invariant (I := State.Numbered ls)
    (fun _ hs _ hitem => step_pointsInto hnl hs hitem) (s := {}) ⟨nofun, nofun⟩
  rw [check_eq, faultsFrom, State.closing, List.forall_mem_append, List.forall_mem_append]
  refine ⟨hfaults, pointsInto_pending hstate, fun f hf => ?_⟩
  obtain ⟨b, hb, rfl⟩ := List.mem_map.1 hf
  obtain ⟨l, hl⟩ := hstate.stack b (List.mem_reverse.1 hb)
  exact ⟨l, hl, rfl⟩

end SchemaLint.Structure
