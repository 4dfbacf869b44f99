import Mathlib.Logic.Relation
import SchemaLint.Proofs.Layout.SecondReading
import SchemaLint.Proofs.Line.Code

/-! Edits of a source that its canonical layout does not show: a line gets other white space around
its text, a blank line comes or goes outside block comments, the brace of a block moves to a line of
its own or back to its opener. -/

namespace SchemaLint.Layout
open SchemaLint.Text SchemaLint.Line

/-- The opener of a block without its brace: a keyword, white space and more. -/
structure IsHead (t : List Char) : Prop where
  trimmed : trim t = t
  keyword : ∃ keyword ∈ blockKeywords, ∃ b rest, isBlank b ∧ t = keyword.toList ++ b :: rest
  noOpen : '{' ∉ t
  noClose : '}' ∉ t
  noRemark : ¬ holds "//".toList t

/-- One edit of the lines of a source. -/
inductive Edit : List (List Char) → List (List Char) → Prop
  | trimmed {above below : List (List Char)} {l k : List Char} :
      trim l = trim k → Edit (above ++ l :: below) (above ++ k :: below)
  | blank {above below : List (List Char)} {l : List Char} :
      blockAfterAll false above = false → trim l = [] → Edit (above ++ below) (above ++ l :: below)
  | brace {above gap below : List (List Char)} {l head brace t g : List Char} :
      blockAfterAll false above = false → IsHead t → Blank g → trim l = t ++ (g ++ ['{']) →
      trim head = t → (∀ k ∈ gap, trim k = []) → trim brace = ['{'] →
      Edit (above ++ l :: below) (above ++ head :: (gap ++ brace :: below))

/-- What a line is split into leaves a block comment open exactly if the line does. -/
theorem run_step_splitCloser (s : State) (l : List Char) :
    (Pass.run step s (splitCloser s.inComment l).2).1.inComment =
      blockAfter s.inComment (trim l) := by
  by_cases hw : s.inComment ∨ isComment (trim l) ∨ statementAndCloser? (trim l) = none
  · rw [splitCloser_of_whole hw, Pass.run_cons, Pass.run_nil]
    exact step_inComment s l
  · simp only [not_or, Bool.not_eq_true] at hw
    obtain ⟨hb, hc, hsome⟩ := hw
    obtain ⟨⟨statement, closer⟩, hs⟩ := Option.ne_none_iff_exists'.1 hsome
    obtain ⟨-, hcode, htc, hcl⟩ := isCode_of_split hc hs
    have hclose : opensBlock (trim closer) = false := by
      obtain ⟨r, hr⟩ := isClosingLine_head hcl
      rw [htc, hr]
      rfl
    rw [hb, splitCloser_of_split hc hs, Pass.run_cons, Pass.run_cons, Pass.run_nil]
    simp only [step_inComment, hb, blockAfter, hcode.noBlock, hclose,
      opensBlock_of_not_isComment hc, Bool.or_self, Bool.false_and]

theorem run_step_inComment (s : State) (ls : List (List Char)) :
    (Pass.run step s (Pass.run splitCloser s.inComment ls).2).1.inComment =
      blockAfterAll s.inComment ls := by
  induction ls generalizing s with
  | nil => rfl
  | cons l ls ih =>
      have hl := run_step_splitCloser s l
      have hb : (splitCloser s.inComment l).1 = _ := hl.symm
      rw [Pass.run_cons, Pass.run_append, hb, ih, hl]
      rfl

theorem run_splitCloser_inComment (b : Bool) (ls : List (List Char)) :
    (Pass.run splitCloser b ls).1 = blockAfterAll b ls := by
  induction ls generalizing b with
  | nil => rfl
  | cons l ls ih =>
      rw [Pass.run_cons, ih]
      rfl

/-- Whatever lines stand above, they leave a state from which the lines below are read. -/
theorem exists_tokensFrom_append (s : State) (above : List (List Char)) :
    ∃ (s' : State) (ts : List Token), s'.inComment = blockAfterAll s.inComment above ∧
      ∀ below, tokensFrom s (above ++ below) = ts ++ tokensFrom s' below := by
  refine ⟨_, (Pass.run step s (Pass.run splitCloser s.inComment above).2).2,
    run_step_inComment s above, fun below => ?_⟩
  simp only [tokensFrom, Pass.run_append, run_splitCloser_inComment, run_step_inComment,
    List.append_assoc]

theorem tokensFrom_trimmed (s : State) {l k : List Char} (h : trim l = trim k)
    (ls : List (List Char)) : tokensFrom s (l :: ls) = tokensFrom s (k :: ls) := by
  by_cases hw : s.inComment ∨ isComment (trim l) ∨ statementAndCloser? (trim l) = none
  · have hstep : step s l = step s k := by simp only [step, h]
    rw [tokensFrom_cons (splitCloser_of_whole hw), tokensFrom_cons (splitCloser_of_whole (h ▸ hw)),
      hstep]
  · obtain ⟨d, b, held⟩ := s
    simp only [not_or, Bool.not_eq_true] at hw
    obtain ⟨rfl, hc, hsome⟩ := hw
    obtain ⟨⟨statement, closer⟩, hs⟩ := Option.ne_none_iff_exists'.1 hsome
    rw [tokensFrom_split hc hs, tokensFrom_split (l := k) (h ▸ hc) (h ▸ hs)]

theorem tokensFrom_blank {s : State} {l : List Char} (hs : s.inComment = false) (h : trim l = [])
    (ls : List (List Char)) : tokensFrom s (l :: ls) = tokensFrom s ls := by
  obtain ⟨d, b, held⟩ := s
  obtain rfl : b = false := hs
  rw [tokensFrom_cons (splitCloser_blank h), step_blank h, List.nil_append]

theorem IsHead.startsWord {t : List Char} (h : IsHead t) : StartsWord t := by
  obtain ⟨keyword, hk, b, more, -, rfl⟩ := h.keyword
  exact (startsWord_of_lineKeyword (mem_lineKeywords_of_block hk)).of_isPrefix
    (List.prefix_append _ _)

/-- An opener is read alike with its brace and without, but for the brace. -/
theorem IsHead.readLine {t : List Char} (h : IsHead t) :
    ∃ text, '{' ∉ text ∧ ¬ holds "//".toList text ∧ readLine t = (.block, text) ∧
      ∀ g, Blank g → Layout.readLine (t ++ (g ++ ['{'])) = (.block, text ++ " \x7b".toList) := by
  obtain ⟨keyword, hk, b, more, hb, ht⟩ := h.keyword
  obtain ⟨g, hg, hmore⟩ := exists_trimStart more
  have hgap : Blank (b :: g) := blank_cons.2 ⟨hb, hg⟩
  have hsplit : t = keyword.toList ++ ((b :: g) ++ trimStart more) := by
    rw [ht, List.cons_append, ← hmore]
  obtain ⟨hn, hends⟩ := endsSolid_rest h.trimmed (by simp) hgap hsplit
  have hsolid : EndsSolid (spaceKeyword keyword (trimStart more)) :=
    endsSolid_spaceKeyword hn hends
  have hopen : '{' ∉ spaceKeyword keyword (trimStart more) := by
    have := h.noOpen
    simp only [hsplit, List.mem_append, not_or] at this
    simp only [spaceKeyword, List.mem_append, List.mem_cons, not_or]
    exact ⟨this.1, by decide, this.2.2⟩
  refine ⟨spaceKeyword keyword (trimStart more), hopen, ?_, ?_, fun g' hg' => ?_⟩
  · have hslash := no_slash_of_lineKeyword (mem_lineKeywords_of_block hk)
    have hremark := remark_eq_nil_iff.2 h.noRemark
    rw [hsplit, (remark_append_of_no_slash hslash _).1,
      (remark_append_of_no_slash (no_slash_of_blank hgap) _).1] at hremark
    rw [← remark_eq_nil_iff, spaceKeyword, (remark_append_of_no_slash hslash _).1,
      ← List.singleton_append, (remark_append_of_no_slash (by decide) _).1, hremark]
  · rw [ht, readLine_block hk hb, spaceOpener, spaceFinalBrace_of_ne hsolid]
    exact fun hl => hopen (List.mem_of_getLast? hl)
  · have hblank : ¬ Blank more := fun hblank => hn (trimStart_eq_nil_iff.2 hblank)
    have hassoc : spaceKeyword keyword (trimStart more ++ (g' ++ ['{'])) =
        (spaceKeyword keyword (trimStart more) ++ g') ++ ['{'] := by simp [spaceKeyword]
    rw [ht, List.append_assoc, List.cons_append, readLine_block hk hb, spaceOpener,
      trimStart_append_of_not_blank hblank, hassoc, spaceFinalBrace_concat, trimEnd_append hg',
      hsolid.trimEnd]

theorem tokensFrom_brace {s : State} {l head brace t g : List Char} {gap : List (List Char)}
    (hs : s.inComment = false) (ht : IsHead t) (hg : Blank g) (hl : trim l = t ++ (g ++ ['{']))
    (hh : trim head = t) (hgap : ∀ k ∈ gap, trim k = []) (hb : trim brace = ['{'])
    (ls : List (List Char)) :
    tokensFrom s (l :: ls) = tokensFrom s (head :: (gap ++ brace :: ls)) := by
  obtain ⟨d, b, held⟩ := s
  obtain rfl : b = false := hs
  have hword := ht.startsWord
  have hwordLine : StartsWord (trim l) := hl ▸ hword.of_isPrefix (List.prefix_append _ _)
  have hcode : IsCode l := by
    have hclose : '}' ∉ g := hg.not_mem (by decide)
    exact isCode_of_word hwordLine (by simp [hl, ht.noClose, hclose])
  have hcodeHead : IsCode head := isCode_of_word (hh ▸ hword) (hh ▸ ht.noClose)
  obtain ⟨text, hopen, hremark, hread, hreadBrace⟩ := ht.readLine
  have hwants : (lineToken d head).wantsBrace := by
    rw [Token.wantsBrace_iff, lineToken, hh, hread]
    exact ⟨rfl, hopen, hremark⟩
  have htoken : lineToken d l = (lineToken d head).braced := by
    rw [lineToken, lineToken, hl, hh, hread, hreadBrace g hg]
    rfl
  have key : tokensFrom ⟨d, false, none⟩ (l :: ls) =
      tokensFrom ⟨d, false, none⟩ (head :: (gap ++ brace :: ls)) := by
    obtain ⟨ts, hts⟩ := exists_reads (lineToken d l).next false ls
    have hline : Reads d false (l :: ls) (lineToken d l :: ts) := by
      refine .line hcode (fun hw => ?_) hts
      rw [htoken, wantsBrace_braced] at hw
      cases hw
    rw [hline.tokensFrom, htoken]
    exact (Reads.braced hcodeHead hwants hgap hb (htoken ▸ hts)).tokensFrom.symm
  -- An opener held from above goes ahead of either form.
  have unbraced : ∀ {k}, StartsWord (trim k) → trim k ≠ [] ∧ trim k ≠ ['{'] := by
    rintro k ⟨c, hc, hw⟩
    constructor <;> intro he <;> rw [he] at hc <;> cases hc
    revert hw
    decide
  cases held with
  | none => exact key
  | some opener =>
      rw [tokensFrom_held_cons (unbraced hwordLine).1 (unbraced hwordLine).2,
        tokensFrom_held_cons (unbraced (hh ▸ hword)).1 (unbraced (hh ▸ hword)).2, key]

theorem Edit.tokens_eq {xs ys : List (List Char)} (h : Edit xs ys) :
    tokens (splitClosers xs) = tokens (splitClosers ys) := by
  rw [tokens_splitClosers, tokens_splitClosers]
  cases h with
  | @trimmed above below l k h =>
      obtain ⟨s, ts, -, hts⟩ := exists_tokensFrom_append {} above
      rw [hts, hts, tokensFrom_trimmed s h]
  | @blank above below l hb h =>
      obtain ⟨s, ts, hs, hts⟩ := exists_tokensFrom_append {} above
      rw [hts, hts, tokensFrom_blank (hs.trans hb) h]
  | @brace above gap below l head brace t g hb ht hg hl hh hgap hbrace =>
      obtain ⟨s, ts, hs, hts⟩ := exists_tokensFrom_append {} above
      rw [hts, hts, tokensFrom_brace (hs.trans hb) ht hg hl hh hgap hbrace]

/-- Sources that edits lead to from one another, forth and back, have one canonical layout. -/
theorem format_eq_of_edits {x y : List Char}
    (h : Relation.EqvGen Edit (Source.lines x) (Source.lines y)) :
    Source.format x = Source.format y := by
  have htokens : ∀ xs ys, Relation.EqvGen Edit xs ys →
      tokens (splitClosers xs) = tokens (splitClosers ys) := by
    intro xs ys h
    induction h with
    | rel xs ys h => exact h.tokens_eq
    | refl xs => rfl
    | symm xs ys _ ih => exact ih.symm
    | trans xs ys zs _ _ ih₁ ih₂ => exact ih₁.trans ih₂
  rw [Source.format, Source.format, htokens _ _ h]

/-- A block whose brace moves below a blank line, and a field that is indented otherwise. -/
theorem format_eq_of_edits_message :
    Relation.EqvGen Edit (Source.lines "message A \x7b\n  int32 a = 1;\n\x7d\n".toList)
        (Source.lines "\tmessage A\n\n\x7b\n\tint32 a = 1; \r\n\x7d\n".toList) ∧
      Source.format "message A \x7b\n  int32 a = 1;\n\x7d\n".toList =
        Source.format "\tmessage A\n\n\x7b\n\tint32 a = 1; \r\n\x7d\n".toList := by
  have hhead : IsHead "message A".toList :=
    ⟨by decide, ⟨"message", by decide, ' ', ['A'], by decide, rfl⟩, by decide, by decide, by decide⟩
  have hbrace : Edit (["message A \x7b", "  int32 a = 1;", "\x7d", ""].map String.toList)
      (["\tmessage A", "", "\x7b", "  int32 a = 1;", "\x7d", ""].map String.toList) :=
    @Edit.brace [] [[]] _ _ _ _ _ [' '] rfl hhead (by decide) (by decide) (by decide) (by decide)
      (by decide)
  have hfield : Edit (["\tmessage A", "", "\x7b", "  int32 a = 1;", "\x7d", ""].map String.toList)
      (["\tmessage A", "", "\x7b", "\tint32 a = 1; \r", "\x7d", ""].map String.toList) :=
    @Edit.trimmed (["\tmessage A", "", "\x7b"].map String.toList) _ _ _ (by decide)
  have h : Relation.EqvGen Edit
      (Source.lines "message A \x7b\n  int32 a = 1;\n\x7d\n".toList)
      (Source.lines "\tmessage A\n\n\x7b\n\tint32 a = 1; \r\n\x7d\n".toList) :=
    .trans _ _ _ (.rel _ _ hbrace) (.rel _ _ hfield)
  exact ⟨h, format_eq_of_edits h⟩

end SchemaLint.Layout
