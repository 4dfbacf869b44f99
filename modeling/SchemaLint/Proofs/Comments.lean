import SchemaLint.Proofs.Layout.Shown
import SchemaLint.Proofs.Structure.Nesting
import SchemaLint.Proofs.Style.Nesting

/-! Comments as the passes see them. The structural scan, the style pass and the formatter follow
block comments alike. They differ on lines outside block comments that start with a star: both
scans pass over these, and the formatter reads them as code. -/

namespace SchemaLint.Layout
open SchemaLint.Text SchemaLint.Line

def State.tokens (s : State) (ls : List (List Char)) : List Token :=
  (Pass.run step s ls).2 ++ (Pass.run step s ls).1.held.toList

/-- An opener is held back outside block comments only. -/
def State.Sound (s : State) : Prop :=
  s.held = none ∨ s.inComment = false

theorem tokens_append (above ls : List (List Char)) :
    tokens (above ++ ls) =
      (Pass.run step {} above).2 ++ (Pass.run step {} above).1.tokens ls := by
  simp only [tokens, State.tokens, Pass.run_append, List.append_assoc]

theorem State.tokens_cons (s : State) (l : List Char) (ls : List (List Char)) :
    s.tokens (l :: ls) = (step s l).2 ++ (step s l).1.tokens ls := by
  simp only [State.tokens, Pass.run_cons, List.append_assoc]

theorem inComment_run (s : State) (ls : List (List Char)) :
    (Pass.run step s ls).1.inComment = blockAfterAll s.inComment ls := by
  induction ls generalizing s with
  | nil => rfl
  | cons l ls ih =>
      rw [Pass.run_cons, ih, step_inComment]
      rfl

/-- What the formatter makes of a trimmed line, from inside a block comment or outside. -/
inductive LineKind (t : List Char) : Bool → Prop
  | block {b : Bool} : b || opensBlock t → LineKind t b
  | blank : t = [] → LineKind t false
  | close : isClosingLine t → LineKind t false
  | code : t ≠ [] → opensBlock t = false → isClosingLine t = false → LineKind t false

theorem lineKind (t : List Char) (b : Bool) : LineKind t b := by
  by_cases hb : b || opensBlock t
  · exact .block hb
  rw [Bool.or_eq_true, not_or, Bool.not_eq_true, Bool.not_eq_true] at hb
  obtain ⟨rfl, hb⟩ := hb
  by_cases hn : t = []
  · exact .blank hn
  by_cases hclose : isClosingLine t
  · exact .close hclose
  · exact .code hn hb (eq_false_of_ne_true hclose)

theorem sound_step_none (d : Nat) (b : Bool) (l : List Char) :
    (step ⟨d, b, none⟩ l).1.Sound := by
  cases lineKind (trim l) b with
  | block hb =>
      rw [step_block hb]
      exact .inl rfl
  | blank hn =>
      rw [step_blank hn]
      exact .inl rfl
  | close hclose =>
      rw [step_close hclose]
      exact .inl rfl
  | code hn hb hclose =>
      rw [step_readLine hn hb hclose]
      split
      · exact .inr rfl
      · exact .inl rfl

theorem State.Sound.step {s : State} (h : s.Sound) (l : List Char) : (step s l).1.Sound := by
  obtain ⟨d, b, held⟩ := s
  cases held with
  | none => exact sound_step_none d b l
  | some t =>
      obtain rfl : b = false := h.resolve_left (Option.some_ne_none t)
      by_cases hn : trim l = []
      · rw [step_blank hn]
        exact .inr rfl
      rw [step_held hn]
      split
      · exact .inl rfl
      · exact sound_step_none d false l

theorem sound_run (ls : List (List Char)) : (Pass.run step {} ls).1.Sound :=
  (Pass.run_invariant (I := State.Sound) (P := fun _ => True)
    (fun _ hs l _ => ⟨hs.step l, fun _ _ => trivial⟩) (.inl rfl)).1

theorem commentLine_of_no_block {t : List Char} (h : opensBlock t = false) :
    commentLine false t = startsWith "//".toList t := by
  rw [commentLine, h]
  rfl

theorem step_comment {d : Nat} {b : Bool} {l : List Char} (hn : trim l ≠ [])
    (hc : commentLine b (trim l)) :
    step ⟨d, b, none⟩ l = (⟨d, blockAfter b (trim l), none⟩, [⟨trim l, d, .comment⟩]) := by
  cases lineKind (trim l) b with
  | block hb => exact step_block hb
  | blank h => exact absurd h hn
  | close hclose =>
      rw [commentLine_closing hclose] at hc
      cases hc
  | code _ hb hclose =>
      rw [commentLine_of_no_block hb] at hc
      have htoken : lineToken d l = ⟨trim l, d, .comment⟩ := by
        rw [lineToken, readLine_slashes hc]
      rw [step_readLine hn hb hclose, htoken, blockAfter_of_no_block hb]
      rfl

theorem tokens_held (d : Nat) (t : Token) (ls : List (List Char)) :
    ∃ u rest, State.tokens ⟨d, false, some t⟩ ls = u :: rest ∧ u.category = t.category := by
  induction ls with
  | nil => exact ⟨t, [], rfl, rfl⟩
  | cons l ls ih =>
      rw [State.tokens_cons]
      by_cases hn : trim l = []
      · rw [step_blank hn]
        exact ih
      rw [step_held hn]
      split
      · exact ⟨t.braced, _, rfl, rfl⟩
      · exact ⟨t, _, rfl, rfl⟩

/-- The first token that a line yields is a comment exactly if the line is one. -/
theorem tokens_line (d : Nat) (b : Bool) {l : List Char} (hn : trim l ≠ [])
    (ls : List (List Char)) :
    ∃ t rest, State.tokens ⟨d, b, none⟩ (l :: ls) = t :: rest ∧
      (t.category = .comment ↔ commentLine b (trim l)) := by
  rw [State.tokens_cons]
  cases lineKind (trim l) b with
  | block hb =>
      rw [step_block hb]
      exact ⟨_, _, rfl, iff_of_true rfl (commentLine_block hb)⟩
  | blank h => exact absurd h hn
  | close hclose =>
      rw [step_close hclose]
      exact ⟨_, _, rfl, by simp [commentLine_closing hclose]⟩
  | code _ hb hclose =>
      have hcategory : (lineToken d l).category = .comment ↔ commentLine false (trim l) := by
        rw [commentLine_of_no_block hb]
        exact category_comment_iff
      rw [step_readLine hn hb hclose]
      split
      · obtain ⟨t, rest, ht, hheld⟩ := tokens_held d (lineToken d l) ls
        exact ⟨t, rest, ht, by rw [hheld, hcategory]⟩
      · exact ⟨lineToken d l, _, rfl, hcategory⟩

theorem braced_ne (t : Token) : t.braced ≠ t := by
  intro h
  have htext : t.text ++ " \x7b".toList = t.text := congrArg Token.text h
  simp at htext

/-- Ahead of what a line yields stands the opener that was held back. -/
theorem tokens_line_comment {s : State} (hs : s.Sound) {l : List Char} (hn : trim l ≠ [])
    (ls : List (List Char)) :
    (∃ t rest, s.tokens (l :: ls) = s.held.toList ++ t :: rest ∧ t.category = .comment) ↔
      commentLine s.inComment (trim l) := by
  obtain ⟨d, b, held⟩ := s
  have hfirst : (∃ t rest, State.tokens ⟨d, b, none⟩ (l :: ls) = t :: rest ∧
      t.category = .comment) ↔ commentLine b (trim l) := by
    obtain ⟨t, rest, ht, hcat⟩ := tokens_line d b hn ls
    rw [ht, ← hcat]
    constructor
    · rintro ⟨u, more, he, hu⟩
      obtain ⟨rfl, -⟩ := List.cons.inj he
      exact hu
    · exact fun h => ⟨t, rest, rfl, h⟩
  cases held with
  | none => exact hfirst
  | some o =>
      obtain rfl : b = false := hs.resolve_left (Option.some_ne_none o)
      rw [← hfirst, State.tokens_cons, State.tokens_cons, step_held hn]
      split
      case isTrue hl =>
          have hcode : ¬ commentLine false (trim l) := by
            rw [hl]
            decide
          have hnone := mt hfirst.1 hcode
          rw [State.tokens_cons] at hnone
          refine iff_of_false ?_ hnone
          rintro ⟨t, rest, he, -⟩
          exact braced_ne o (List.cons.inj he).1
      case isFalse =>
          simp only [Option.toList_some, List.cons_append, List.nil_append, List.cons.injEq,
            true_and]

/-- The token that a line adds to those of the lines above is a comment. -/
def AddsComment (above : List (List Char)) (l : List Char) (below : List (List Char)) : Prop :=
  ∃ t rest, tokens (above ++ l :: below) = tokens above ++ t :: rest ∧ t.category = .comment

theorem addsComment_iff {above below : List (List Char)} {l : List Char} (hn : trim l ≠ []) :
    AddsComment above l below ↔ commentLine (blockAfterAll false above) (trim l) := by
  have hblock : (Pass.run step {} above).1.inComment = blockAfterAll false above :=
    inComment_run {} above
  have habove : tokens above =
      (Pass.run step {} above).2 ++ (Pass.run step {} above).1.held.toList := rfl
  rw [AddsComment, ← hblock, ← tokens_line_comment (sound_run above) hn below, tokens_append,
    habove]
  simp only [List.append_assoc, List.append_cancel_left_eq]

/-- The depth at which the lines below go on. -/
def depthAfter (ls : List (List Char)) : Nat :=
  (Pass.run step {} ls).1.depth

theorem depth_comment {s : State} (hs : s.Sound) {l : List Char} (hn : trim l ≠ [])
    (hc : commentLine s.inComment (trim l)) : (step s l).1.depth = s.depth := by
  obtain ⟨d, b, held⟩ := s
  cases held with
  | none => rw [step_comment hn hc]
  | some o =>
      obtain rfl : b = false := hs.resolve_left (Option.some_ne_none o)
      have hbrace : trim l ≠ ['{'] := by
        intro hl
        rw [hl] at hc
        cases hc
      rw [step_held hn, if_neg hbrace, step_comment hn hc]

theorem depthAfter_comment {above : List (List Char)} {l : List Char} (hn : trim l ≠ [])
    (hc : commentLine (blockAfterAll false above) (trim l)) :
    depthAfter (above ++ [l]) = depthAfter above := by
  have hblock : (Pass.run step {} above).1.inComment = blockAfterAll false above :=
    inComment_run {} above
  rw [← hblock] at hc
  rw [depthAfter, Pass.run_append, Pass.run_cons]
  exact depth_comment (sound_run above) hn hc

end SchemaLint.Layout

namespace SchemaLint.Source
open SchemaLint.Text SchemaLint.Line SchemaLint.Layout

/-- A scan that stands inside a block comment or outside passes over the line as a comment. -/
def PassedOver (inComment : Bool) (l : List Char) : Prop :=
  inComment || isComment (trim l)

/-- The two scans and the formatter take a line between others for a comment, all of them or none,
and if they do, it changes no depth. -/
structure AgreeAt (above : List (List Char)) (l : List Char) (below : List (List Char)) : Prop where
  scan : PassedOver (Structure.scan {} (above.zipIdx 1)).1.inComment l ↔
    AddsComment above l below
  style : PassedOver (Style.scan {} (above.zipIdx 1)).1.inComment l ↔ AddsComment above l below
  depth : PassedOver (Structure.scan {} (above.zipIdx 1)).1.inComment l →
    depthAfter (above ++ [l]) = depthAfter above

/-- The scans and the formatter agree on what a comment is, on every line that is not blank. -/
def CommentsAgree (ls : List (List Char)) : Prop :=
  ∀ above l below, ls = above ++ l :: below → trim l ≠ [] → AgreeAt above l below

theorem not_commentLine_of_star {t : List Char} (h : startsWith "*".toList t) :
    commentLine false t = false := by
  obtain ⟨s, rfl⟩ := startsWith_iff.1 h
  rfl

theorem passedOver_iff {b : Bool} {l : List Char} :
    PassedOver b l ↔ commentLine b (trim l) ∨ startsWith "*".toList (trim l) := by
  simp only [PassedOver, isComment, commentLine, Bool.or_eq_true]
  tauto

/-- One line outside block comments that starts with a star is all they can disagree on. -/
theorem agreeAt_iff {above below : List (List Char)} {l : List Char} (hn : trim l ≠ []) :
    AgreeAt above l below ↔
      (blockAfterAll false above = false → startsWith "*".toList (trim l) = false) := by
  have hscan : (Structure.scan {} (above.zipIdx 1)).1.inComment = blockAfterAll false above :=
    Structure.inComment_scan {} above 1
  have hstyle : (Style.scan {} (above.zipIdx 1)).1.inComment = blockAfterAll false above :=
    (Style.scan_place {} above 1).2
  constructor
  · intro h hb
    refine eq_false_of_ne_true fun hstar => ?_
    have hpassed := h.scan.1 (passedOver_iff.2 (.inr hstar))
    rw [addsComment_iff hn, hb, not_commentLine_of_star hstar] at hpassed
    cases hpassed
  · intro h
    have hpassed : PassedOver (blockAfterAll false above) l ↔ AddsComment above l below := by
      rw [addsComment_iff hn, passedOver_iff]
      refine or_iff_left_of_imp fun hstar => ?_
      cases hb : blockAfterAll false above with
      | true => rfl
      | false =>
          rw [h hb] at hstar
          cases hstar
    rw [← hscan] at hpassed
    refine ⟨hpassed, hscan.trans hstyle.symm ▸ hpassed, fun hc => ?_⟩
    exact depthAfter_comment hn ((addsComment_iff hn).1 (hpassed.1 hc))

/-- They agree exactly on the sources in which no line outside block comments starts with a
star. -/
theorem comments_agree_iff (ls : List (List Char)) :
    CommentsAgree ls ↔ ∀ above l below, ls = above ++ l :: below →
      blockAfterAll false above = false → startsWith "*".toList (trim l) = false := by
  constructor
  · intro h above l below hls
    by_cases hn : trim l = []
    · rw [hn]
      exact fun _ => rfl
    · exact (agreeAt_iff hn).1 (h above l below hls hn)
  · intro h above l below hls hn
    exact (agreeAt_iff hn).2 (h above l below hls)

/-- A line that both scans pass over opens a block for the formatter. -/
theorem comments_disagree : ¬ ∀ ls, CommentsAgree ls := by
  intro h
  have hline : AgreeAt [] "* a \x7b".toList [] := h _ [] _ [] rfl (by decide)
  have hdepth : depthAfter ["* a \x7b".toList] = depthAfter [] := hline.depth rfl
  revert hdepth
  decide

end SchemaLint.Source
