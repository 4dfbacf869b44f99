import Mathlib.Order.Monotone.Basic
import SchemaLint.Proofs.Style.Nesting

/-! Lines under other numbers. The style pass puts line numbers into its state and its findings and
compares but two of them, the lines of the last declarations; so with numbers in the same order it
does the same. -/

namespace SchemaLint

/-- The rules on the length of lines and on the end of a source. -/
def Rule.ofLayout : Rule → Bool
  | .maxLineLength | .trailingNewline => true
  | _ => false

namespace Style
open SchemaLint.Text SchemaLint.Line

def EnumValue.renumber (f : Nat → Nat) (v : EnumValue) : EnumValue :=
  { v with line := f v.line }

def OpenEnum.renumber (f : Nat → Nat) (e : OpenEnum) : OpenEnum :=
  { e with line := f e.line, values := e.values.map (EnumValue.renumber f) }

def Import.renumber (f : Nat → Nat) (i : Import) : Import :=
  { i with line := f i.line }

def State.renumber (f : Nat → Nat) (s : State) : State :=
  { s with
    syntaxLine := s.syntaxLine.map f
    packageLine := s.packageLine.map f
    imports := s.imports.map (Import.renumber f)
    openEnum := s.openEnum.map (OpenEnum.renumber f) }

def Finding.renumber (f : Nat → Nat) (finding : Finding) : Finding :=
  { finding with line := f finding.line }

/-- The outcome of a reader, of a line or of a scan. -/
def renumberOutcome (f : Nat → Nat) (outcome : State × List Finding) : State × List Finding :=
  (outcome.1.renumber f, outcome.2.map (Finding.renumber f))

variable {f : Nat → Nat}

theorem lengthFindings_renumber (n : Nat) (raw : List Char) :
    lengthFindings (f n) raw = (lengthFindings n raw).map (Finding.renumber f) := by
  unfold lengthFindings
  split <;> rfl

theorem nameFindings_renumber (good : List Char → Bool) (cause : List Char → Cause) (n : Nat)
    (name : List Char) :
    nameFindings good cause (f n) name =
      (nameFindings good cause n name).map (Finding.renumber f) := by
  unfold nameFindings
  split <;> rfl

theorem messageFindings_renumber (n : Nat) (text : List Char) :
    messageFindings (f n) text = (messageFindings n text).map (Finding.renumber f) := by
  unfold messageFindings
  cases declaredName? "message" text with
  | none => rfl
  | some name => exact nameFindings_renumber ..

theorem noteHeader_renumber (s : State) (n : Nat) (text : List Char) :
    (s.renumber f).noteHeader (f n) text = (s.noteHeader n text).renumber f := by
  have hline : ∀ (test : Bool) (line : Option Nat),
      (if test then some (f n) else line.map f) = (if test then some n else line).map f := by
    intro test line
    cases test <;> rfl
  have himports : ∀ (test : Bool) (i : Import),
      (if test then s.imports.map (Import.renumber f) ++ [i.renumber f]
        else s.imports.map (Import.renumber f)) =
      (if test then s.imports ++ [i] else s.imports).map (Import.renumber f) := by
    intro test i
    cases test with
    | false => rfl
    | true =>
        rw [if_pos rfl, if_pos rfl, List.map_append]
        rfl
  simp only [State.noteHeader, State.renumber, hline, ← himports]
  rfl

theorem collect_renumber (n : Nat) (s : State) (text : List Char) :
    State.collect (f n) (s.renumber f) text = renumberOutcome f (State.collect n s text) := by
  obtain ⟨syntaxLine, packageLine, imports, afterComment, depth, service, openEnum, inComment,
    overlong⟩ := s
  unfold State.collect
  cases openEnum with
  | none => rfl
  | some e =>
      cases assignment? text with
      | none => rfl
      | some r =>
          simp only [State.renumber, renumberOutcome, Option.map_some, OpenEnum.renumber,
            List.map_append, nameFindings_renumber]
          rfl

theorem readEnum_renumber (s : State) (n : Nat) (text : List Char) :
    (s.renumber f).readEnum (f n) text = renumberOutcome f (s.readEnum n text) := by
  unfold State.readEnum
  cases declaredName? "enum" text with
  | none => exact collect_renumber ..
  | some name =>
      have hrun : ∀ (t : State) (texts : List (List Char)),
          Pass.run (State.collect (f n)) (t.renumber f) texts =
            renumberOutcome f (Pass.run (State.collect n) t texts) := by
        intro t texts
        have := Pass.run_map (f := State.renumber f) (g := id) (h := Finding.renumber f)
          (fun t text => collect_renumber (f := f) n t text)
          t texts
        rwa [List.map_id] at this
      simp only [State.openEnumAt, renumberOutcome, List.map_append, nameFindings_renumber]
      exact congrArg (fun outcome => (outcome.1, _ ++ outcome.2))
        (hrun { s with openEnum := some { name, line := n, depth := s.depth } } _)

theorem fieldFindings_renumber (s : State) (n : Nat) (text : List Char) :
    (s.renumber f).fieldFindings (f n) text =
      (s.fieldFindings n text).map (Finding.renumber f) := by
  obtain ⟨syntaxLine, packageLine, imports, afterComment, depth, service, openEnum, inComment,
    overlong⟩ := s
  unfold State.fieldFindings
  cases openEnum with
  | some e => rfl
  | none =>
      cases fieldName? text with
      | none => rfl
      | some name => exact nameFindings_renumber ..

theorem readService_renumber (s : State) (n : Nat) (text : List Char) :
    (s.renumber f).readService (f n) text = renumberOutcome f (s.readService n text) := by
  have hwanting : ∀ cause : Cause,
      (if s.afterComment then [] else [({ line := f n, cause } : Finding)]) =
        (if s.afterComment then [] else [({ line := n, cause } : Finding)]).map
          (Finding.renumber f) := by
    intro cause
    split <;> rfl
  have hdepth : (s.renumber f).serviceDepth = s.serviceDepth := rfl
  unfold State.readService
  rw [hdepth]
  dsimp only
  split
  · exact congrArg (Prod.mk _) (hwanting .serviceUncommented)
  · split
    · exact congrArg (Prod.mk _) (hwanting .rpcUncommented)
    · rfl

theorem firstValueFindings_renumber (e : OpenEnum) :
    firstValueFindings (e.renumber f) = (firstValueFindings e).map (Finding.renumber f) := by
  obtain ⟨name, line, depth, values⟩ := e
  cases values with
  | nil => rfl
  | cons v values =>
      change (if v.number = 0 && "UNSPECIFIED".toList.isSuffixOf v.name then []
          else [({ line := f line, cause := .firstValue name } : Finding)]) =
        (if v.number = 0 && "UNSPECIFIED".toList.isSuffixOf v.name then []
          else [({ line, cause := .firstValue name } : Finding)]).map (Finding.renumber f)
      split <;> rfl

theorem brace_renumber (s : State) (c : Char) :
    (s.renumber f).brace c = renumberOutcome f (s.brace c) := by
  obtain ⟨syntaxLine, packageLine, imports, afterComment, depth, service, openEnum, inComment,
    overlong⟩ := s
  unfold State.brace
  split
  · rfl
  · split
    · cases openEnum with
      | none => rfl
      | some e =>
          have hdepth : (e.renumber f).depth = e.depth := rfl
          dsimp only [State.renumber, Option.map_some]
          rw [hdepth, firstValueFindings_renumber]
          split <;> rfl
    · rfl

theorem readBraces_renumber (s : State) (text : List Char) :
    (s.renumber f).readBraces text = renumberOutcome f (s.readBraces text) := by
  unfold State.readBraces
  split
  · rfl
  · have := Pass.run_map (f := State.renumber f) (g := id) (h := Finding.renumber f)
      (fun t c => brace_renumber (f := f) t c) s (code text)
    rwa [List.map_id] at this

theorem step_renumber (s : State) (l : List Char) (n : Nat) :
    step (s.renumber f) (l, f n) = renumberOutcome f (step s (l, n)) := by
  have hcomment : (s.renumber f).inComment = s.inComment := rfl
  unfold step
  dsimp only
  rw [hcomment]
  split
  case isTrue => exact congrArg (Prod.mk _) (lengthFindings_renumber n l)
  case isFalse =>
      have hsame : { s.renumber f with inComment := blockAfter s.inComment (trim l) } =
          State.renumber f { s with inComment := blockAfter s.inComment (trim l) } := rfl
      rw [hsame, noteHeader_renumber, readEnum_renumber]
      dsimp only [renumberOutcome]
      rw [readService_renumber, fieldFindings_renumber]
      dsimp only [renumberOutcome]
      rw [readBraces_renumber, lengthFindings_renumber, messageFindings_renumber]
      simp only [renumberOutcome, List.map_append]
      rfl

theorem scan_renumber (s : State) (items : List (List Char × Nat)) :
    scan (s.renumber f) (items.map (Prod.map id f)) = renumberOutcome f (scan s items) :=
  Pass.run_map (fun s item => step_renumber s item.1 item.2) s items

theorem scan_append (s : State) (xs ys : List (List Char)) (n : Nat) :
    scan s ((xs ++ ys).zipIdx n) =
      ((scan (scan s (xs.zipIdx n)).1 (ys.zipIdx (n + xs.length))).1,
        (scan s (xs.zipIdx n)).2 ++
          (scan (scan s (xs.zipIdx n)).1 (ys.zipIdx (n + xs.length))).2) :=
  Pass.run_zipIdx_append ..

/-- The lines above keep their numbers, and so does all that the pass remembers of them. -/
theorem renumberOutcome_above {above : List (List Char)} (h : ∀ i ≤ above.length, f i = i) :
    renumberOutcome f (scan {} (above.zipIdx 1)) = scan {} (above.zipIdx 1) := by
  have hf : ∀ i < above.length, f (1 + i) = 1 + i := fun i hi => h (1 + i) (by omega)
  rw [← scan_renumber, zipIdx_renumber hf]
  rfl

theorem headerFindings_renumber (hf : StrictMono f) (hone : f 1 = 1) (s : State) :
    (s.renumber f).headerFindings = s.headerFindings.map (Finding.renumber f) := by
  obtain ⟨syntaxLine, packageLine, imports, afterComment, depth, service, openEnum, inComment,
    overlong⟩ := s
  cases syntaxLine with
  | none =>
      cases packageLine with
      | none => simp [State.headerFindings, State.renumber, Finding.renumber, hone]
      | some p => simp [State.headerFindings, State.renumber, Finding.renumber, hone]
  | some q =>
      cases packageLine with
      | none => simp [State.headerFindings, State.renumber, Finding.renumber, hone]
      | some p =>
          change (if f p < f q then [({ line := f p, cause := .packageBeforeSyntax } : Finding)]
              else []) =
            (if p < q then [({ line := p, cause := .packageBeforeSyntax } : Finding)] else []).map
              (Finding.renumber f)
          simp only [hf.lt_iff_lt]
          split <;> rfl

theorem importFindings_renumber (s : State) :
    (s.renumber f).importFindings = s.importFindings.map (Finding.renumber f) := by
  refine congrArg Prod.snd (Pass.run_map (f := id) (g := Import.renumber f)
    (h := Finding.renumber f) (fun seen i => ?_) false s.imports)
  refine congrArg (Prod.mk _) ?_
  change (if i.isPublic && seen then [({ line := f i.line, cause := .lateImport } : Finding)]
      else []) =
    (if i.isPublic && seen then [({ line := i.line, cause := .lateImport } : Finding)] else []).map
      (Finding.renumber f)
  split <;> rfl

/-- The findings of rules that are not about layout. -/
def substance (fs : List Finding) : List Finding :=
  fs.filter fun f => !f.cause.rule.ofLayout

@[simp] theorem substance_append (fs gs : List Finding) :
    substance (fs ++ gs) = substance fs ++ substance gs :=
  List.filter_append ..

@[simp] theorem substance_renumber (fs : List Finding) :
    substance (fs.map (Finding.renumber f)) = (substance fs).map (Finding.renumber f) := by
  rw [substance, List.filter_map]
  rfl

@[simp] theorem substance_length (n : Nat) (raw : List Char) :
    substance (lengthFindings n raw) = [] := by
  unfold lengthFindings
  split <;> rfl

@[simp] theorem substance_newline (content : List Char) (count : Nat) :
    substance (newlineFindings content count) = [] := by
  unfold newlineFindings
  split <;> rfl

/-- If lines leave the state that others leave and have the findings of the others, those of a
source that starts with the one are those of a source that starts with the other, with other
numbers below. -/
theorem check_replace {xs ys : List (List Char)}
    (hstate : (scan {} (ys.zipIdx 1)).1 = (scan {} (xs.zipIdx 1)).1)
    (hfound : substance (scan {} (ys.zipIdx 1)).2 = substance (scan {} (xs.zipIdx 1)).2)
    (hf : StrictMono f) (hone : f 1 = 1) (habove : ∀ i ≤ xs.length, f i = i)
    (hbelow : ∀ i, f (xs.length + 1 + i) = ys.length + 1 + i) (content content' : List Char)
    (below : List (List Char)) :
    (check content' (ys ++ below)).map substance =
      (check content (xs ++ below)).map fun found =>
        (substance found).map (Finding.renumber f) := by
  have houtcome := renumberOutcome_above habove
  have hsame : (scan {} (xs.zipIdx 1)).1.renumber f = (scan {} (xs.zipIdx 1)).1 :=
    congrArg Prod.fst houtcome
  have hkept : (scan {} (xs.zipIdx 1)).2.map (Finding.renumber f) = (scan {} (xs.zipIdx 1)).2 :=
    congrArg Prod.snd houtcome
  have hrest : scan (scan {} (ys.zipIdx 1)).1 (below.zipIdx (1 + ys.length)) =
      renumberOutcome f (scan (scan {} (xs.zipIdx 1)).1 (below.zipIdx (1 + xs.length))) := by
    have hnumbers : ∀ i < below.length, f (1 + xs.length + i) = 1 + ys.length + i := by
      intro i _
      rw [Nat.add_comm 1, Nat.add_comm 1]
      exact hbelow i
    rw [hstate, ← zipIdx_renumber hnumbers, ← scan_renumber, hsame]
  unfold check
  rw [scan_append, scan_append, hrest]
  generalize scan (scan {} (xs.zipIdx 1)).1 (below.zipIdx (1 + xs.length)) = outcome
  have hoverlong : (outcome.1.renumber f).overlong = outcome.1.overlong := rfl
  simp only [renumberOutcome, hoverlong]
  cases outcome.1.overlong with
  | some digits => rfl
  | none =>
      refine congrArg Except.ok ?_
      simp only [substance_append, substance_newline, substance_renumber, List.map_append, hfound,
        headerFindings_renumber hf hone, importFindings_renumber]
      rw [← substance_renumber (scan {} (xs.zipIdx 1)).2, hkept]
      rfl

end Style

end SchemaLint
