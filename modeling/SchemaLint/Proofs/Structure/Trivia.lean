import SchemaLint.Proofs.Layout.CodeSpacing
import SchemaLint.Proofs.Structure.Renumbering

/-! White space and trailing comments. The scan reads the code of a line and, for two faults, the
column at which the code starts. Lines with other indentation, blank lines that come or go and
comments behind the code therefore only move faults. -/

namespace SchemaLint.Line
open SchemaLint.Text SchemaLint.Layout

/-- The length of the white space before the text of a line. -/
def indentation (l : List Char) : Nat :=
  (l.takeWhile isBlank).length

/-- The line is the text, or the text with a comment behind it that white space sets off. -/
inductive Remarked (body : List Char) : List Char → Prop
  | bare : Remarked body body
  | remark {g text : List Char} : Blank g → g ≠ [] →
      Remarked body (body ++ (g ++ ("//".toList ++ text)))

theorem startsWith_pair (a b c : Char) (s : List Char) :
    startsWith [a, b] (c :: s) ↔ c = a ∧ s.head? = some b := by
  rw [startsWith_iff]
  cases s with
  | nil => simp
  | cons d s => simp [eq_comm]

theorem isComment_cons {c : Char} {s : List Char} :
    isComment (c :: s) ↔ c = '*' ∨ c = '/' ∧ (s.head? = some '/' ∨ s.head? = some '*') := by
  have hstar : startsWith "*".toList (c :: s) ↔ c = '*' := by
    rw [startsWith_iff]
    simp [eq_comm]
  have hslashes := startsWith_pair '/' '/' c s
  have hopens := startsWith_pair '/' '*' c s
  rw [isComment, Bool.or_eq_true, Bool.or_eq_true, hstar, opensBlock]
  change (startsWith ['/', '/'] (c :: s) ∨ startsWith ['/', '*'] (c :: s)) ∨ c = '*' ↔ _
  rw [hslashes, hopens, ← and_or_left, or_comm]

theorem head?_trimEnd {c : Char} (hc : isBlank c = false) {s : List Char} :
    (trimEnd s).head? = some c ↔ s.head? = some c := by
  obtain ⟨g, hg, he⟩ := exists_trimEnd s
  by_cases hn : trimEnd s = []
  · have hs : s = g := by rw [he, hn, List.nil_append]
    rw [hn, hs]
    refine iff_of_false nofun fun h => ?_
    rw [hg c (List.mem_of_head? h)] at hc
    cases hc
  · have hhead : s.head? = (trimEnd s).head? := by
      conv_lhs => rw [he]
      exact List.head?_append_of_ne_nil _ hn
    rw [hhead]

theorem isComment_trim_append {s t : List Char} (hs : ¬ Blank s)
    (ht : ∀ c ∈ t.head?, isBlank c) : isComment (trim (s ++ t)) = isComment (trim s) := by
  obtain ⟨c, r, hcr⟩ := List.exists_cons_of_ne_nil (mt trimStart_eq_nil_iff.1 hs)
  have hc : isBlank c = false := startsSolid_trimStart s c (by rw [hcr]; rfl)
  have hhead : ∀ d, isBlank d = false →
      ((trimEnd (r ++ t)).head? = some d ↔ (trimEnd r).head? = some d) := by
    intro d hd
    rw [head?_trimEnd hd, head?_trimEnd hd]
    cases r with
    | cons e r => rfl
    | nil =>
        refine iff_of_false (fun h => ?_) nofun
        rw [ht d h] at hd
        cases hd
  rw [trim, trim, trimStart_append_of_not_blank hs, hcr, List.cons_append, trimEnd_cons hc,
    trimEnd_cons hc, Bool.eq_iff_iff, isComment_cons, isComment_cons, hhead '/' (by decide),
    hhead '*' (by decide)]

namespace Remarked
variable {body l : List Char}

theorem code (h : Remarked body l) (hn : '\n' ∉ l) : code (trim l) = code (trim body) := by
  cases h with
  | bare => rfl
  | @remark g text hg hgn =>
      have hbody : '\n' ∉ body := fun hm => hn (List.mem_append_left _ hm)
      have hbefore : trim (beforeRemark (body ++ (g ++ ("//".toList ++ text)))) =
          trim (beforeRemark body) := by
        by_cases hr : Line.remark body = []
        · have hu : Unjoined body (g ++ ("//".toList ++ text)) := by
            apply Unjoined.of_head
            rw [List.head?_append_of_ne_nil _ hgn]
            exact fun hs => no_slash_of_blank hg (List.mem_of_head? hs)
          have hslashes : beforeRemark ("//".toList ++ text) = [] := rfl
          rw [(remark_append_of_nil hr hu).2,
            (remark_append_of_no_slash (no_slash_of_blank hg) _).2, hslashes, List.append_nil,
            trim_append_right hg, beforeRemark_of_nil hr]
        · rw [(remark_append_of_ne_nil hr _).2]
      rw [code_trim hn, code_trim hbody, code_eq hn, code_eq hbody, hbefore]

theorem isComment (h : Remarked body l) (hb : ¬ Blank body) :
    isComment (trim l) = isComment (trim body) := by
  cases h with
  | bare => rfl
  | @remark g text hg hgn =>
      apply isComment_trim_append hb
      intro c hc
      rw [List.head?_append_of_ne_nil _ hgn] at hc
      exact hg c (List.mem_of_head? hc)

theorem indentation (h : Remarked body l) (hb : ¬ Blank body) :
    indentation l = indentation body := by
  cases h with
  | bare => rfl
  | remark hg hgn =>
      have hlength : ¬ (body.takeWhile isBlank).length = body.length := fun he =>
        hb (List.takeWhile_eq_self_iff.1 ((List.takeWhile_prefix _).eq_of_length he))
      rw [Line.indentation, List.takeWhile_append, if_neg hlength]
      rfl

theorem trim_ne_nil (h : Remarked body l) (hb : ¬ Blank body) : trim l ≠ [] := by
  cases h with
  | bare => exact mt trim_eq_nil_iff.1 hb
  | remark hg hgn => exact fun hl => hb (blank_append.1 (trim_eq_nil_iff.1 hl)).1

theorem not_blank (h : Remarked body l) {b : Bool} (hc : codeOf b l ≠ []) : ¬ Blank body := by
  intro hb
  cases h with
  | bare => exact hc (codeOf_blank (trim_eq_nil_iff.2 hb))
  | @remark g text hg hgn =>
      apply hc
      apply codeOf_comment
      rw [trim_append_left hb, trim_append_left hg]
      change Line.isComment (trim ('/' :: '/' :: text))
      rw [trim, StartsSolid.trimStart (startsSolid_cons.2 (by decide)), trimEnd_cons (by decide),
        trimEnd_cons (by decide), isComment_cons]
      exact .inr ⟨rfl, .inl rfl⟩

end Remarked

end SchemaLint.Line

namespace SchemaLint.Structure
open SchemaLint.Text SchemaLint.Line

/-- How an edit moves faults: lines get other numbers, and on one line, which gets another
indentation, columns move by as much. -/
structure Shift where
  number : Nat → Nat := id
  line : Nat := 0
  indent : Nat := 0
  newIndent : Nat := 0

/-- A fault after the edit beside the fault before it. Only the faults at a place inside a statement
have columns that move. -/
structure Moved (m : Shift) (f g : Fault) : Prop where
  line : g.line = m.number f.line
  cause : g.cause = f.cause.renumber m.number
  message : g.cause.message = f.cause.message
  column : if f.line = m.line ∧ f.cause.site = .place
    then g.column + m.indent = f.column + m.newIndent else g.column = f.column

/-- One edit of white space or of a trailing comment, and how it moves faults. -/
inductive Edit : Shift → List (List Char) → List (List Char) → Prop
  | trimmed {above below : List (List Char)} {l k : List Char} (h : trim l = trim k) :
      Edit { line := above.length + 1, indent := indentation l, newIndent := indentation k }
        (above ++ l :: below) (above ++ k :: below)
  | insert {above below : List (List Char)} {l : List Char} (h : trim l = []) :
      Edit { number := fun n => if n ≤ above.length then n else n + 1 }
        (above ++ below) (above ++ l :: below)
  | delete {above below : List (List Char)} {l : List Char} (h : trim l = []) :
      Edit { number := fun n => if n ≤ above.length then n else n - 1 }
        (above ++ l :: below) (above ++ below)
  | comment {above below : List (List Char)} {body l k : List Char}
      (hl : Remarked body l) (hk : Remarked body k) (hln : '\n' ∉ l) (hkn : '\n' ∉ k)
      (hcode : codeOf (blockAfterAll false above) l ≠ []) :
      Edit {} (above ++ l :: below) (above ++ k :: below)

variable {s : State}

theorem line_of_place {n indent : Nat} {code : List Char} {f : Fault}
    (hf : f ∈ (scanCode s n indent code).2) (hp : f.cause.site = .place) : f.line = n := by
  have hcauses : ∀ causes : List Cause, f ∈ causes.map (fun cause => { line := n, cause }) →
      f.line = n := by
    intro causes h
    obtain ⟨cause, -, rfl⟩ := List.mem_map.1 h
    rfl
  simp only [scanCode, List.mem_append, or_assoc] at hf
  rcases hf with h | h | h | h | h | h
  · exact hcauses _ h
  · rw [site_blocks s n code f h] at hp
    cases hp
  · exact hcauses _ h
  · exact (site_trailing n indent code f h).1
  · exact hcauses _ h
  · exact (site_semicolon n indent code f h).1

theorem line_of_place_step {l : List Char} {n : Nat} {f : Fault} (hf : f ∈ (step s (l, n)).2)
    (hp : f.cause.site = .place) : f.line = n := by
  rcases line_cases s.inComment l with hs | hl | ⟨hs, hc⟩ | ⟨hs, hn, hc⟩
  · rw [step_inside hs] at hf
    cases hf
  · rw [step_blank hl] at hf
    cases hf
  · rw [step_comment hs hc] at hf
    obtain ⟨b, -, rfl⟩ := List.mem_map.1 hf
    cases hp
  · rw [step_of_code hs hn hc] at hf
    exact line_of_place hf hp

theorem line_of_place_scan {ls : List (List Char)} {n : Nat} {f : Fault}
    (hf : f ∈ (scan s (ls.zipIdx n)).2) (hp : f.cause.site = .place) :
    n ≤ f.line ∧ f.line < n + ls.length := by
  have hstep : ∀ t, True → ∀ item ∈ ls.zipIdx n, True ∧
      ∀ f ∈ (step t item).2, f.cause.site = .place → n ≤ f.line ∧ f.line < n + ls.length := by
    rintro t - ⟨l, line⟩ hitem
    refine ⟨trivial, fun f hf hp => ?_⟩
    rw [line_of_place_step hf hp]
    exact ⟨List.le_snd_of_mem_zipIdx hitem, Nat.add_comm n _ ▸ List.snd_lt_add_of_mem_zipIdx hitem⟩
  exact (Pass.run_invariant hstep trivial).2 f hf hp

theorem line_of_place_from {ls : List (List Char)} {n : Nat} {f : Fault}
    (hf : f ∈ faultsFrom s n ls) (hp : f.cause.site = .place) : n ≤ f.line := by
  simp only [faultsFrom, State.closing, List.mem_append] at hf
  rcases hf with h | h | h
  · exact (line_of_place_scan h hp).1
  · obtain ⟨b, -, rfl⟩ := List.mem_map.1 h
    cases hp
  · obtain ⟨b, -, rfl⟩ := List.mem_map.1 h
    cases hp

theorem Cause.renumber_id (cause : Cause) : cause.renumber id = cause := by
  cases cause <;> rfl

theorem Fault.renumber_id (f : Fault) : f.renumber id = f := by
  rw [Fault.renumber, Cause.renumber_id]
  rfl

theorem Moved.refl {m : Shift} {f : Fault} (hm : m.number = id)
    (h : f.cause.site = .place → f.line ≠ m.line) : Moved m f f := by
  refine ⟨?_, ?_, rfl, ?_⟩
  · rw [hm]
    rfl
  · rw [hm, Cause.renumber_id]
  · rw [if_neg]
    exact fun ⟨hline, hp⟩ => h hp hline

theorem Moved.renumber {m : Shift} (hm : m.indent = m.newIndent) (f : Fault) :
    Moved m f (f.renumber m.number) := by
  refine ⟨rfl, rfl, f.cause.message_renumber, ?_⟩
  split
  · rw [hm]
    rfl
  · rfl

theorem Moved.renumber_back {m : Shift} (hm : m.indent = m.newIndent) {r : Nat → Nat}
    (hr : ∀ n, m.number (r n) = n) (f : Fault) : Moved m (f.renumber r) f := by
  have hblock : ∀ b : Block, (b.renumber r).renumber m.number = b := by
    intro b
    rw [Block.renumber, Block.renumber, hr]
  refine ⟨(hr f.line).symm, ?_, f.cause.message_renumber.symm, ?_⟩
  · obtain ⟨line, column, cause⟩ := f
    cases cause with
    | missingBrace b => exact congrArg Cause.missingBrace (hblock b).symm
    | unclosed b => exact congrArg Cause.unclosed (hblock b).symm
    | _ => rfl
  · split
    · rw [hm]
      rfl
    · rfl

theorem forall₂_refl {m : Shift} (hm : m.number = id) {fs : List Fault}
    (h : ∀ f ∈ fs, f.cause.site = .place → f.line ≠ m.line) : List.Forall₂ (Moved m) fs fs :=
  List.forall₂_same.2 fun f hf => .refl hm (h f hf)

theorem trailingFaults_indent (n i j : Nat) (code : List Char) :
    List.Forall₂ (Moved { line := n, indent := i, newIndent := j })
      (trailingFaults n i code) (trailingFaults n j code) := by
  simp only [trailingFaults]
  split
  · exact .nil
  · refine .cons ⟨rfl, rfl, rfl, ?_⟩ .nil
    rw [if_pos ⟨rfl, rfl⟩]
    dsimp only
    omega

theorem semicolonFaults_indent (n i j : Nat) (code : List Char) :
    List.Forall₂ (Moved { line := n, indent := i, newIndent := j })
      (semicolonFaults n i code) (semicolonFaults n j code) := by
  unfold semicolonFaults
  split
  · refine .cons ⟨rfl, rfl, rfl, ?_⟩ .nil
    rw [if_pos ⟨rfl, rfl⟩]
    dsimp only
    omega
  · exact .nil

theorem scanCode_indent (s : State) (n i j : Nat) (code : List Char) :
    (scanCode s n i code).1 = (scanCode s n j code).1 ∧
      List.Forall₂ (Moved { line := n, indent := i, newIndent := j })
        (scanCode s n i code).2 (scanCode s n j code).2 := by
  have hcauses : ∀ causes : List Cause, (∀ c ∈ causes, c.site = .statement) →
      List.Forall₂ (Moved { line := n, indent := i, newIndent := j })
        (causes.map fun cause => { line := n, cause })
        (causes.map fun cause => { line := n, cause }) := by
    intro causes h
    apply forall₂_refl rfl
    intro f hf hp
    obtain ⟨cause, hc, rfl⟩ := List.mem_map.1 hf
    rw [h cause hc] at hp
    cases hp
  have hblocks : List.Forall₂ (Moved { line := n, indent := i, newIndent := j })
      (blocks s n code).faults (blocks s n code).faults := by
    apply forall₂_refl rfl
    intro f hf hp
    rw [site_blocks s n code f hf] at hp
    cases hp
  have hmember := hcauses _ (site_member s.context code)
  have hrpc := hcauses _ (site_rpc s.context code)
  have htop := hcauses _ (site_topLevel s.atTopLevel code)
  have htrailing := trailingFaults_indent n i j code
  have hsemicolon := semicolonFaults_indent n i j code
  refine ⟨rfl, ?_⟩
  unfold scanCode
  exact List.rel_append (List.rel_append (List.rel_append (List.rel_append
    (List.rel_append hmember hblocks) hrpc) htrailing) htop) hsemicolon

theorem step_trimmed {l k : List Char} (h : trim l = trim k) (s : State) (n : Nat) :
    (step s (l, n)).1 = (step s (k, n)).1 ∧
      List.Forall₂ (Moved { line := n, indent := indentation l, newIndent := indentation k })
        (step s (l, n)).2 (step s (k, n)).2 := by
  rcases line_cases s.inComment l with hs | hl | ⟨hs, hc⟩ | ⟨hs, hn, hc⟩
  · rw [step_inside hs, step_inside hs, h]
    exact ⟨rfl, .nil⟩
  · rw [step_blank hl, step_blank (h ▸ hl)]
    exact ⟨rfl, .nil⟩
  · rw [step_comment hs hc, step_comment hs (h ▸ hc), h]
    refine ⟨rfl, forall₂_refl rfl fun f hf hp => ?_⟩
    obtain ⟨b, -, rfl⟩ := List.mem_map.1 hf
    cases hp
  · rw [step_of_code hs hn hc, step_of_code hs (h ▸ hn) (h ▸ hc), h]
    exact scanCode_indent ..

theorem step_remarked {body l k : List Char} (hl : Remarked body l) (hk : Remarked body k)
    (hln : '\n' ∉ l) (hkn : '\n' ∉ k) (hcode : codeOf s.inComment l ≠ []) (n : Nat) :
    step s (l, n) = step s (k, n) := by
  have hb := hl.not_blank hcode
  obtain ⟨hs, hn, hc⟩ := outside_of_codeOf hcode
  have hck : isComment (trim k) = false := by rw [hk.isComment hb, ← hl.isComment hb, hc]
  rw [step_of_code hs hn hc, step_of_code hs (hk.trim_ne_nil hb) hck, hl.code hln, hk.code hkn]
  have hindent : indentation l = indentation k := by rw [hl.indentation hb, hk.indentation hb]
  rw [indentation, indentation] at hindent
  rw [hindent]

theorem scan_concat (s : State) (ls : List (List Char)) (l : List Char) (n : Nat) :
    scan s ((ls ++ [l]).zipIdx n) =
      ((step (scan s (ls.zipIdx n)).1 (l, n + ls.length)).1,
        (scan s (ls.zipIdx n)).2 ++ (step (scan s (ls.zipIdx n)).1 (l, n + ls.length)).2) := by
  have hnil : ∀ t m, scan t (([] : List (List Char)).zipIdx m) = (t, []) := fun _ _ => rfl
  rw [scan_append, scan_cons, hnil, List.append_nil]

theorem check_insert {l : List Char} (h : trim l = []) (above below : List (List Char)) :
    check (above ++ l :: below) = (check (above ++ below)).map
      (Fault.renumber fun n => if n ≤ above.length then n else n + 1) := by
  have hscan : scan {} ((above ++ [l]).zipIdx 1) = scan {} (above.zipIdx 1) := by
    rw [scan_concat, step_blank h, List.append_nil]
  rw [List.append_cons]
  refine check_replace hscan (fun i hi => if_pos hi) (fun i => ?_) below
  rw [if_neg (by omega), List.length_append, List.length_singleton]
  omega

/-- An edit of white space or of a trailing comment moves the faults of a source, and changes
nothing else about them: their order, their messages, their lines and columns as they move. -/
theorem check_edit {m : Shift} {ls ks : List (List Char)} (h : Edit m ls ks) :
    List.Forall₂ (Moved m) (check ls) (check ks) := by
  cases h with
  | @trimmed above below l k h =>
      obtain ⟨hstate, hfaults⟩ := step_trimmed h (scan {} (above.zipIdx 1)).1 (above.length + 1)
      rw [check_split, check_split, faultsFrom_cons, faultsFrom_cons, ← hstate]
      refine List.rel_append (forall₂_refl rfl fun f hf hp => ?_)
        (List.rel_append hfaults (forall₂_refl rfl fun f hf hp => ?_))
      · have := (line_of_place_scan hf hp).2
        dsimp only
        omega
      · have := line_of_place_from hf hp
        dsimp only
        omega
  | insert h =>
      rw [check_insert h, List.forall₂_map_right_iff, List.forall₂_same]
      exact fun f _ => .renumber rfl f
  | delete h =>
      rw [check_insert h, List.forall₂_map_left_iff, List.forall₂_same]
      refine fun f _ => .renumber_back rfl (fun n => ?_) f
      dsimp only
      split
      · rfl
      · rw [if_neg (by omega), Nat.add_sub_cancel]
  | @comment above below body l k hl hk hln hkn hcode =>
      have hstep := step_remarked (s := (scan {} (above.zipIdx 1)).1) hl hk hln hkn
        (by rwa [inComment_scan]) (above.length + 1)
      rw [check_split, check_split, faultsFrom_cons, faultsFrom_cons, hstep, List.forall₂_same]
      intro f _
      have hmoved : Moved {} f (f.renumber id) := .renumber rfl f
      rwa [Fault.renumber_id] at hmoved

/-- A statement without its semicolon, indented by one character instead of two: its fault moves a
column to the left. -/
theorem check_edit_outdented :
    Edit { line := 2, indent := 2, newIndent := 1 }
        (["message A \x7b", "  option a = 1", "\x7d"].map String.toList)
        (["message A \x7b", "\toption a = 1 ", "\x7d"].map String.toList) ∧
      List.Forall₂ (Moved { line := 2, indent := 2, newIndent := 1 })
        (check (["message A \x7b", "  option a = 1", "\x7d"].map String.toList))
        (check (["message A \x7b", "\toption a = 1 ", "\x7d"].map String.toList)) ∧
      check (["message A \x7b", "  option a = 1", "\x7d"].map String.toList) =
        [{ line := 2, column := 14, cause := .lacksSemicolon }] ∧
      check (["message A \x7b", "\toption a = 1 ", "\x7d"].map String.toList) =
        [{ line := 2, column := 13, cause := .lacksSemicolon }] := by
  have h : Edit { line := 2, indent := 2, newIndent := 1 }
      (["message A \x7b", "  option a = 1", "\x7d"].map String.toList)
      (["message A \x7b", "\toption a = 1 ", "\x7d"].map String.toList) :=
    @Edit.trimmed ["message A \x7b".toList] ["\x7d".toList] "  option a = 1".toList
      "\toption a = 1 ".toList (by decide)
  exact ⟨h, check_edit h, by decide, by decide⟩

end SchemaLint.Structure
