import SchemaLint.Proofs.Layout.Lexemes
import SchemaLint.Proofs.Layout.Shown
import SchemaLint.Proofs.Line.Code

/-! Blank lines. The policy looks at two neighbouring tokens only; that every blank line stands
between two lines at the margin rests on the depths that tokens can have in a row. -/

namespace SchemaLint.Layout
open SchemaLint.Text SchemaLint.Line

/-- The line stands at the margin, and is not blank. -/
structure Unindented (l : List Char) : Prop where
  nonempty : l ≠ []
  solid : StartsSolid l

/-- The last of the lines stands at the margin and is no comment. -/
def EndsAtMargin (ls : List (List Char)) : Prop :=
  ∃ front l, ls = front ++ [l] ∧ Unindented l ∧
    commentLine (blockAfterAll false front) (trim l) = false

/-- A blank line between the lines above and the lines below is in its place: it parts two lines
at the margin, and the upper one is no comment. -/
structure Parted (above below : List (List Char)) : Prop where
  above : EndsAtMargin above
  below : ∃ l ∈ below.head?, Unindented l

/-- What a token shows of the depth and of the block comment before it and after it. -/
structure Token.Leads (t : Token) (d : Nat) (b : Bool) (next : Nat) (blockNext : Bool) : Prop where
  solid : StartsSolid t.text
  nonempty : b = false → t.text ≠ []
  block : blockAfter b (trim t.text) = blockNext
  comment : blockNext → t.category = .comment
  code : t.category ≠ .comment → commentLine b (trim t.text) = false
  depth : t.category ≠ .close → t.depth = d
  close : t.category = .close → t.depth = next

/-- What is known of the lines above and of the token they end with, ahead of what stands at a
depth, inside a block comment or outside. -/
structure Above (prior : List (List Char)) (prev : Option Token) (d : Nat) (b : Bool) : Prop where
  block : blockAfterAll false prior = b
  comment : b → ∀ p ∈ prev, p.category = .comment
  close : ∀ p ∈ prev, p.category = .close → p.depth = d
  margin : ∀ p ∈ prev, p.category ≠ .comment → p.depth = 0 → EndsAtMargin prior

theorem leads_comment {d : Nat} {b : Bool} {t : List Char} (hc : commentLine b t)
    (ht : trim t = t) : Token.Leads ⟨t, d, .comment⟩ d b d (blockAfter b t) where
  solid := ht ▸ startsSolid_trim t
  nonempty := by
    rintro rfl rfl
    cases hc
  block := by rw [ht]
  comment _ := rfl
  code h := absurd rfl h
  depth _ := rfl
  close h := by cases h

theorem leads_close {d : Nat} {t : List Char} (hc : isClosingLine t) (ht : trim t = t) :
    Token.Leads ⟨t, d - 1, .close⟩ d false (d - 1) false where
  solid := ht ▸ startsSolid_trim t
  nonempty _ := by
    obtain ⟨s, rfl⟩ := isClosingLine_head hc
    simp
  block := by
    rw [ht]
    exact blockAfter_of_no_block (opensBlock_of_commentLine (commentLine_closing hc))
  comment h := by cases h
  code _ := by
    rw [ht]
    exact commentLine_closing hc
  depth h := absurd rfl h
  close _ := rfl

theorem Token.ShowsCode.leads {t : Token} (h : t.ShowsCode) :
    t.Leads t.depth false t.next false where
  solid := h.solid
  nonempty _ := h.nonempty
  block := blockAfter_of_no_block (opensBlock_of_commentLine h.noComment)
  comment hb := by cases hb
  code _ := h.noComment
  depth _ := rfl
  close hc := absurd hc h.noCloseToken

theorem Shown.leads {d : Nat} {b : Bool} {t : Token} {ts : List Token} (h : Shown d b (t :: ts)) :
    ∃ next blockNext, t.Leads d b next blockNext ∧ Shown next blockNext ts := by
  cases h with
  | comment hc ht h => exact ⟨_, _, leads_comment hc ht, h⟩
  | close hc ht h => exact ⟨_, _, leads_close hc ht, h⟩
  | code hcode h => exact ⟨_, _, hcode.leads, h⟩

theorem Shown.solid {d : Nat} {b : Bool} {ts : List Token} (h : Shown d b ts) :
    ∀ t ∈ ts, StartsSolid t.text := by
  induction ts generalizing d b with
  | nil => nofun
  | cons t ts ih =>
      obtain ⟨next, blockNext, ht, h⟩ := h.leads
      exact List.forall_mem_cons.2 ⟨ht.solid, ih h⟩

theorem unindented_line {t : Token} (hn : t.text ≠ []) (hs : StartsSolid t.text)
    (hd : t.depth = 0) : Unindented t.line := by
  have ht : t.line = t.text := by
    rw [Token.line, if_neg hn, hd]
    rfl
  rw [ht]
  exact ⟨hn, hs⟩

theorem not_blank_line {t : Token} (hn : t.text ≠ []) (hs : StartsSolid t.text) :
    ¬ Blank t.line := by
  obtain ⟨g, -, he⟩ := t.line_eq
  rw [he, blank_append, not_and]
  exact fun _ => not_blank_of_startsSolid hn hs

/-- A blank line goes only above a token at the margin. What stands above it is no comment, and is
at the margin too unless it is a closing brace with something else below. -/
theorem needsBlank_margin {p t : Token} (h : needsBlank p t) :
    t.depth = 0 ∧ p.category ≠ .comment ∧
      (p.depth = 0 ∨ p.category = .close ∧ t.category ≠ .close) := by
  unfold needsBlank at h
  split at h
  case isTrue => cases h
  case isFalse ht =>
      refine ⟨Nat.eq_zero_of_not_pos ht, ?_⟩
      split at h
      case isTrue hp => exact ⟨by simp [hp], .inr ⟨hp, of_decide_eq_true h⟩⟩
      case isFalse =>
          split at h
          case isTrue => cases h
          case isFalse hp =>
              refine ⟨?_, .inl (Nat.eq_zero_of_not_pos hp)⟩
              split at h
              case isTrue hheader =>
                  intro hc
                  rw [hc] at hheader
                  cases hheader
              case isFalse =>
                  split at h
                  case h_1 => exact of_decide_eq_true h
                  case h_2 => exact of_decide_eq_true h
                  case h_3 => cases h

theorem Token.Leads.above {t : Token} {d next : Nat} {b blockNext : Bool}
    (h : t.Leads d b next blockNext) {prior : List (List Char)}
    (hb : blockAfterAll false prior = b) : Above (prior ++ [t.line]) (some t) next blockNext where
  block := by
    rw [blockAfterAll_append, hb, ← h.block, ← t.trim_line]
    rfl
  comment hn p hp := by
    cases hp
    exact h.comment hn
  close p hp hc := by
    cases hp
    exact h.close hc
  margin p hp hc hd := by
    cases hp
    have hcode := h.code hc
    have hb' : b = false := by
      rw [commentLine, Bool.or_assoc, Bool.or_eq_false_iff] at hcode
      exact hcode.1
    refine ⟨prior, t.line, rfl, unindented_line (h.nonempty hb') h.solid hd, ?_⟩
    rw [hb, t.trim_line]
    exact hcode

theorem Above.parted {prior : List (List Char)} {prev : Option Token} {d next : Nat}
    {b blockNext : Bool} (h : Above prior prev d b) {t : Token} (ht : t.Leads d b next blockNext)
    (hn : prev.any (needsBlank · t)) (ls : List (List Char)) : Parted prior (t.line :: ls) := by
  obtain ⟨p, rfl, hn⟩ := (Option.any_eq_true _ _).1 hn
  obtain ⟨hdepth, hc, hp⟩ := needsBlank_margin hn
  have hb : b = false := eq_false_of_ne_true fun hb => hc (h.comment hb p rfl)
  have hpdepth : p.depth = 0 := by
    rcases hp with hp | ⟨hp, htc⟩
    · exact hp
    · rw [h.close p rfl hp, ← ht.depth htc, hdepth]
  exact ⟨h.margin p rfl hc hpdepth, t.line, rfl,
    unindented_line (ht.nonempty hb) ht.solid hdepth⟩

/-- The lines of tokens hold no other blank lines, but for those of block comments. -/
theorem Shown.parted {d : Nat} {b : Bool} {ts : List Token} (h : Shown d b ts)
    {prior : List (List Char)} {prev : Option Token} (ha : Above prior prev d b)
    {above below : List (List Char)} {gap : List Char}
    (he : linesAfter prev ts = above ++ gap :: below) (hg : Blank gap)
    (hb : blockAfterAll false (prior ++ above) = false) : Parted (prior ++ above) below := by
  induction ts generalizing d b prior prev above with
  | nil =>
      rw [linesAfter_nil] at he
      simp at he
  | cons t ts ih =>
      obtain ⟨next, blockNext, ht, h⟩ := h.leads
      -- below the blank line of the policy, or without one
      have fromToken : ∀ {prior above : List (List Char)}, blockAfterAll false prior = b →
          t.line :: linesAfter (some t) ts = above ++ gap :: below →
          blockAfterAll false (prior ++ above) = false → Parted (prior ++ above) below := by
        intro prior above hprior he hb
        rcases List.cons_eq_append_iff.1 he with ⟨rfl, hline⟩ | ⟨above, rfl, hrest⟩
        · obtain ⟨rfl, -⟩ := List.cons.inj hline
          rw [List.append_nil, hprior] at hb
          exact absurd hg (not_blank_line (ht.nonempty hb) ht.solid)
        · rw [List.append_cons] at hb ⊢
          exact ih h (ht.above hprior) hrest hb
      rw [linesAfter_cons] at he
      split at he
      case isTrue hn =>
          rcases List.cons_eq_append_iff.1 he with ⟨rfl, hline⟩ | ⟨above, rfl, hrest⟩
          · obtain ⟨-, rfl⟩ := List.cons.inj hline
            rw [List.append_nil]
            exact ha.parted ht hn _
          · rw [List.append_cons] at hb ⊢
            refine fromToken ?_ hrest hb
            rw [blockAfterAll_append, ha.block]
            exact blockAfter_nil b
      case isFalse => exact fromToken ha.block he hb

theorem Parted.of_append_blanks {above below : List (List Char)} {n : Nat}
    (h : Parted above (below ++ List.replicate n [])) : Parted above below := by
  obtain ⟨l, hl, hlast⟩ := h.below
  refine ⟨h.above, l, ?_, hlast⟩
  cases below with
  | nil =>
      rw [List.nil_append] at hl
      exact absurd (List.eq_of_mem_replicate (List.mem_of_head? hl)) hlast.nonempty
  | cons k below => exact hl

theorem Shown.not_blank {d : Nat} {b : Bool} {ts : List Token} (h : Shown d b ts)
    {prev : Option Token} {l : List Char} (hl : l ∈ linesAfter prev ts) (hn : l ≠ []) :
    ¬ Blank l := by
  rcases mem_linesAfter hl with rfl | ⟨t, ht, rfl⟩
  · exact absurd rfl hn
  · exact not_blank_line (fun htext => hn (Token.line_eq_nil_iff.2 htext)) (h.solid t ht)

theorem Shown.not_blank_first {d : Nat} {t : Token} {ts : List Token}
    (h : Shown d false (t :: ts)) : ¬ Blank t.line := by
  obtain ⟨next, blockNext, ht, -⟩ := h.leads
  exact not_blank_line (ht.nonempty rfl) ht.solid

/-- The line of the first token is the first line, since it is not blank. -/
theorem Shown.lines_cons {d : Nat} {t : Token} {ts : List Token} (h : Shown d false (t :: ts)) :
    dropFinalBlanks (linesAfter none (t :: ts)) =
      t.line :: dropFinalBlanks (linesAfter (some t) ts) := by
  have hn : t.line ≠ [] := by
    intro hn
    exact h.not_blank_first (hn ▸ .nil)
  rw [linesAfter_cons, Option.any_none, if_neg Bool.false_ne_true, List.nil_append,
    dropFinalBlanks_cons, if_neg fun hl => hn hl.1]

theorem Shown.last {d : Nat} {b : Bool} {ts : List Token} (h : Shown d b ts)
    {prev : Option Token} (hn : dropFinalBlanks (linesAfter prev ts) ≠ []) :
    ∃ l ∈ (dropFinalBlanks (linesAfter prev ts)).getLast?, ¬ Blank l := by
  have hlast := List.rdropWhile_last_not List.isEmpty (linesAfter prev ts) hn
  have hmem := mem_of_mem_dropFinalBlanks (List.getLast_mem hn)
  exact ⟨_, List.getLast?_eq_some_getLast hn,
    h.not_blank hmem fun he => hlast (List.isEmpty_iff.2 he)⟩

theorem above_nil : Above [] none 0 false where
  block := rfl
  comment h := by cases h
  close := nofun
  margin := nofun

theorem blank_format (x : List Char) : Blank (Source.format x) ↔ Blank x := by
  rw [← lexemes_eq_nil_iff, lexemes_format, lexemes_eq_nil_iff]

/-- Blank lines are canonical. White space alone is formatted to nothing. Any other output starts
with a line that is not blank and ends with a line feed after one, and outside block comments each
of its blank lines parts two lines at the margin, the upper one of which is no comment. -/
theorem blank_lines_format (x : List Char) :
    (Source.format x = [] ↔ Blank x) ∧
      (¬ Blank x → ∃ ls, Source.lines (Source.format x) = ls ++ [[]] ∧
        (∃ l ∈ ls.head?, ¬ Blank l) ∧ (∃ l ∈ ls.getLast?, ¬ Blank l) ∧
        ∀ above gap below, ls = above ++ gap :: below → Blank gap →
          blockAfterAll false above = false → Parted above below) := by
  apply Exists.elim (exists_reads 0 false (Source.lines x))
  intro ts h
  rw [h.lines_format]
  have hformat : Source.format x = render ts := by rw [Source.format, reads_iff.1 h]
  have hshown := h.shown
  cases ts with
  | nil =>
      have hempty : Source.format x = [] := hformat
      have hx : Blank x := (blank_format x).1 (hempty ▸ .nil)
      exact ⟨iff_of_true hempty hx, fun hn => absurd hx hn⟩
  | cons t ts =>
      have hrest := hshown.lines_cons
      have hfirst := hshown.not_blank_first
      have hx : ¬ Blank x := by
        rw [← blank_format, hformat, render_eq, hrest, List.flatMap_cons, blank_append,
          blank_append]
        exact fun hb => hfirst hb.1.1
      have hnonempty : Source.format x ≠ [] := by
        intro hempty
        exact hx ((blank_format x).1 (hempty ▸ .nil))
      refine ⟨iff_of_false hnonempty hx, fun _ => ⟨_, rfl, ?_, hshown.last (by simp [hrest]), ?_⟩⟩
      · rw [hrest]
        exact ⟨t.line, rfl, hfirst⟩
      · intro above gap below he hg hb
        obtain ⟨n, hn⟩ := exists_dropFinalBlanks (linesAfter none (t :: ts))
        rw [he, List.append_assoc, List.cons_append] at hn
        exact (hshown.parted above_nil hn hg hb).of_append_blanks

end SchemaLint.Layout
