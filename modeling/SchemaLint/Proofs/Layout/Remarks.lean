import SchemaLint.Proofs.Layout.Collect

/-! Comments under formatting. Comments are read as the passes read them: the lines of a block
comment as a whole, and on every other line the text from its first two slashes. -/

namespace SchemaLint.Layout
open SchemaLint.Text SchemaLint.Line

def remarks (t : List Char) : List (List Char) :=
  if remark t = [] then [] else [remark t]

/-- The trimmed texts of all comments, in order, but for blank lines at the end. -/
def comments (x : List Char) : List (List Char) :=
  dropFinalBlanks (collect (fun t => [t]) remarks false (Source.lines x))

def codeLexemes (x : List Char) : List (List Char) :=
  collect (fun _ => []) (fun t => lexemes (beforeRemark t)) false (Source.lines x)

/-- The line has no trailing comment, or it is not split and its normal spacing leaves the comment
as it is. -/
def KeepsRemark (t : List Char) : Prop :=
  remark t = [] ∨ isClosingLine t ∨
    ((isComment t ∨ statementAndCloser? t = none) ∧ remark (spaced t) = remark t)

theorem ink_remark_spaced (t : List Char) : ink (remark (spaced t)) = ink (remark t) := by
  obtain ⟨-, k, hk, he⟩ := remark_trim (readLine t).2
  rw [(respaced_readLine t).remark.2.ink, he, ink_append, ink_blank hk, List.append_nil, spaced]

theorem remark_eq_nil_iff_ink {s : List Char} : remark s = [] ↔ ink (remark s) = [] := by
  constructor
  · intro h
    rw [h, ink_nil]
  · intro h
    have hs := startsSolid_remark s
    have hb := ink_eq_nil_iff.1 h
    cases hr : remark s with
    | nil => rfl
    | cons c r =>
        rw [hr] at hs hb
        rw [startsSolid_cons, (blank_cons.1 hb).1] at hs
        cases hs

theorem lexemes_beforeRemark_trim (s : List Char) :
    lexemes (beforeRemark (trim s)) = lexemes (beforeRemark s) := by
  obtain ⟨⟨g, k, hg, hk, he⟩, -⟩ := remark_trim s
  rw [he, lexemes_append_blank hk, lexemes_blank_append hg]

theorem lexemes_beforeRemark_spaced (t : List Char) :
    lexemes (beforeRemark (spaced t)) = lexemes (beforeRemark t) := by
  rw [spaced, lexemes_beforeRemark_trim, (respaced_readLine t).remark.1.lexemes]

theorem remark_trim_of_nil {s : List Char} (h : remark s = []) : remark (trim s) = [] := by
  obtain ⟨-, k, -, he⟩ := remark_trim s
  exact (List.append_eq_nil_iff.1 (he.symm.trans h)).1

theorem remark_braced {s : List Char} (h : remark s = []) : remark (s ++ " \x7b".toList) = [] :=
  (remark_append_of_nil h (.of_head (by decide))).1

/-- A comment on a split line starts in the statement, and runs on into the closing brace. -/
theorem remark_split {t statement closer : List Char}
    (h : statementAndCloser? t = some (statement, closer)) :
    remark closer = [] ∧ (remark statement = [] ∧ remark t = [] ∨ remark statement ≠ [] ∧
      ∃ g, Blank g ∧ remark t = remark statement ++ (g ++ closer)) := by
  obtain ⟨g, hg, rfl, -, -, -, hc⟩ := statementAndCloser?_eq_some_iff.1 h
  have hcl : '/' ∉ closer := by rcases closer_cases hc with rfl | rfl <;> decide
  have hgc : '/' ∉ g ++ closer := by simp [no_slash_of_blank hg, hcl]
  refine ⟨remark_of_no_slash hcl, ?_⟩
  by_cases hs : remark statement = []
  · refine .inl ⟨hs, ?_⟩
    rw [(remark_append_of_nil hs (.of_head fun hh => hgc (List.mem_of_head? hh))).1]
    exact remark_of_no_slash hgc
  · exact .inr ⟨hs, g, hg, (remark_append_of_ne_nil hs _).1⟩

theorem length_remarks {s t : List Char} (h : remark s = [] ↔ remark t = []) :
    (remarks s).length = (remarks t).length := by
  unfold remarks
  by_cases hs : remark s = []
  · rw [if_pos hs, if_pos (h.1 hs)]
  · rw [if_neg hs, if_neg fun ht => hs (h.2 ht)]
    rfl

theorem remark_spaced_eq_nil_iff {t : List Char} : remark (spaced t) = [] ↔ remark t = [] := by
  rw [remark_eq_nil_iff_ink, ink_remark_spaced, ← remark_eq_nil_iff_ink]

theorem remarks_eq_iff {s t : List Char} : remarks s = remarks t ↔ remark s = remark t := by
  unfold remarks
  split <;> split <;> simp_all

theorem KeepsRemark.remark_eq_nil_of_split {t : List Char} {p : List Char × List Char}
    (h : KeepsRemark t) (hclose : isClosingLine t = false) (hc : isComment t = false)
    (hs : statementAndCloser? t = some p) : remark t = [] := by
  rcases h with h | h | ⟨h | h, -⟩
  · exact h
  · exact absurd h (by simp [hclose])
  · exact absurd h (by simp [hc])
  · rw [hs] at h
    cases h

theorem remarks_outputs (t : List Char) :
    (remarks t).length = ((outputs t).flatMap remarks).length ∧
      (remarks t = (outputs t).flatMap remarks ↔ KeepsRemark t) := by
  have h := becomes t
  generalize outputs t = us at h ⊢
  cases h with
  | blank hn =>
      subst hn
      exact ⟨rfl, fun _ => .inl rfl, fun _ => rfl⟩
  | close hclose => exact ⟨by simp, fun _ => .inr (.inl hclose), fun _ => by simp⟩
  | whole hclose hw =>
      rw [List.flatMap_singleton, remarks_eq_iff]
      refine ⟨length_remarks remark_spaced_eq_nil_iff.symm, ?_, ?_⟩
      · intro h
        exact .inr (.inr ⟨hw, h.symm⟩)
      · rintro (h | h | ⟨-, h⟩)
        · rw [h, remark_spaced_eq_nil_iff.2 h]
        · exact absurd h (by simp [hclose])
        · exact h.symm
  | @split statement closer hclose hc hs =>
      obtain ⟨hcl, hr⟩ := remark_split hs
      have hout : [spaced statement, closer].flatMap remarks = remarks (spaced statement) := by
        simp [remarks, hcl]
      rw [hout, remarks_eq_iff]
      rcases hr with ⟨hst, ht⟩ | ⟨hst, g, hg, ht⟩
      · have hsp := remark_spaced_eq_nil_iff.2 hst
        refine ⟨length_remarks (by rw [hsp, ht]), fun _ => .inl ht, fun _ => ?_⟩
        rw [hsp, ht]
      · have hne : remark t ≠ [] := by simp [ht, hst]
        have hsp : remark (spaced statement) ≠ [] :=
          fun h => hst (remark_spaced_eq_nil_iff.1 h)
        refine ⟨length_remarks (by simp [hne, hsp]), ?_, fun h => ?_⟩
        · intro he
          have hink := congrArg ink he
          rw [ink_remark_spaced, ht, ink_append, List.append_right_eq_self, ink_append,
            List.append_eq_nil_iff] at hink
          obtain ⟨-, -, -, -, -, -, hcc⟩ := statementAndCloser?_eq_some_iff.1 hs
          rcases closer_cases hcc with rfl | rfl <;> exact absurd hink.2 (by decide)
        · exact absurd (h.remark_eq_nil_of_split hclose hc hs) hne

theorem lexemes_outputs {t : List Char} (h : KeepsRemark t) :
    (outputs t).flatMap (fun u => lexemes (beforeRemark u)) = lexemes (beforeRemark t) := by
  have hbecomes := becomes t
  generalize outputs t = us at hbecomes ⊢
  cases hbecomes with
  | blank hn => rw [hn]; rfl
  | close => exact List.flatMap_singleton ..
  | whole => rw [List.flatMap_singleton, lexemes_beforeRemark_spaced]
  | @split statement closer hclose hc hs =>
      have ht := h.remark_eq_nil_of_split hclose hc hs
      obtain ⟨hcl, hr⟩ := remark_split hs
      have hst : remark statement = [] := by
        rcases hr with ⟨hst, -⟩ | ⟨-, g, -, he⟩
        · exact hst
        · rw [ht] at he
          exact (List.append_eq_nil_iff.1 he.symm).1
      rw [beforeRemark_of_nil ht, lexemes_split hs, List.flatMap_cons,
        List.flatMap_singleton, lexemes_beforeRemark_spaced, beforeRemark_of_nil hst,
        beforeRemark_of_nil hcl]

theorem comments_format (x : List Char) :
    comments (Source.format x) =
      dropFinalBlanks
        (collect (fun t => [t]) (fun t => (outputs t).flatMap remarks) false (Source.lines x)) := by
  have hbrace : ∀ s, remark s = [] → StartsWord s → statementAndCloser? (trim s) = none →
      remarks (trim (s ++ " \x7b".toList)) = remarks (trim s) ++ remarks ['{'] := by
    intro s h _ _
    simp only [remarks, remark_trim_of_nil h, remark_trim_of_nil (remark_braced h)]
    rfl
  obtain ⟨out, m, n, hf, hx⟩ := collect_format (fun t => [t]) remarks (by rfl) hbrace x
  have hblanks : ∀ k, (List.replicate k [([] : List Char)]).flatten = List.replicate k [] := by
    simp
  rw [comments, hf, hx, hblanks, hblanks, dropFinalBlanks_append_blanks,
    dropFinalBlanks_append_blanks]

theorem codeLexemes_format (x : List Char) :
    codeLexemes (Source.format x) =
      collect (fun _ => []) (fun t => (outputs t).flatMap fun u => lexemes (beforeRemark u)) false
        (Source.lines x) := by
  have hbrace : ∀ s, remark s = [] → StartsWord s → statementAndCloser? (trim s) = none →
      lexemes (beforeRemark (trim (s ++ " \x7b".toList))) =
        lexemes (beforeRemark (trim s)) ++ lexemes (beforeRemark ['{']) := by
    intro s h _ _
    rw [lexemes_beforeRemark_trim, lexemes_beforeRemark_trim, beforeRemark_of_nil h,
      beforeRemark_of_nil (remark_braced h)]
    exact lexemes_append_cons_blank s ['{'] (by decide)
  obtain ⟨out, m, n, hf, hx⟩ := collect_format (fun _ => [])
    (fun t => lexemes (beforeRemark t)) (by rfl) hbrace x
  have hblanks : ∀ k, (List.replicate k ([] : List (List Char))).flatten = [] := by simp
  rw [codeLexemes, hf, hx, hblanks, hblanks]

theorem comments_format_eq_iff (x : List Char) :
    comments (Source.format x) = comments x ↔ ∀ t ∈ codeLines x, KeepsRemark t := by
  have hlen := fun t => (remarks_outputs t).1
  have hpoint : ∀ t, (outputs t).flatMap remarks = remarks t ↔ KeepsRemark t :=
    fun t => eq_comm.trans (remarks_outputs t).2
  rw [comments_format, comments]
  constructor
  · intro h
    have hcollect := dropFinalBlanks_inj (length_collect (fun t => (hlen t).symm) _ _) h
    exact fun t ht => (hpoint t).1
      ((collect_eq_iff (fun t => (hlen t).symm) _ _).1 hcollect t ht)
  · intro h
    rw [(collect_eq_iff (fun t => (hlen t).symm) _ _).2 fun t ht => (hpoint t).2 (h t ht)]

theorem codeLexemes_format_of_keeps {x : List Char} (h : ∀ t ∈ codeLines x, KeepsRemark t) :
    codeLexemes (Source.format x) = codeLexemes x := by
  rw [codeLexemes_format, codeLexemes]
  exact collect_congr fun t ht => lexemes_outputs (h t ht)

theorem suffix_of_no_slash_append {r p v : List Char} (hr : r.head? = some '/') (hp : '/' ∉ p)
    (h : r <:+ p ++ v) : r <:+ v := by
  induction p with
  | nil => exact h
  | cons c p ih =>
      rcases List.suffix_cons_iff.1 h with rfl | h
      · cases hr
        exact absurd (List.mem_cons_self ..) hp
      · exact ih (fun hm => hp (List.mem_cons_of_mem _ hm)) h

theorem Spelled.suffix {r s t : List Char} {category : Category} (h : Spelled s category t)
    (hr : r.head? = some '/') (hm : ∀ c ∈ r, isMark c = false) (hs : r <:+ s) : r <:+ t := by
  have hn : r ≠ [] := by rintro rfl; cases hr
  have solid : StartsSolid r := by
    intro c hc
    rw [hr] at hc
    cases hc
    decide
  have keyword : ∀ {keyword : String} {g rest : List Char}, '/' ∉ keyword.toList → Blank g →
      r <:+ keyword.toList ++ (g ++ rest) → r <:+ spaceKeyword keyword rest := by
    intro keyword g rest hk hg hs
    have hrest := suffix_of_no_slash_append hr (no_slash_of_blank hg)
      (suffix_of_no_slash_append hr hk hs)
    exact hrest.trans ((List.suffix_cons ' ' rest).trans (List.suffix_append _ _))
  cases h with
  | comment => exact hs
  | block hk _ hg _ he =>
      exact (respaced_spaceFinalBrace _).suffix hm hn solid
        (keyword (no_slash_of_lineKeyword (mem_lineKeywords_of_block hk)) hg (he ▸ hs))
  | syntaxDecl hg hh _ he => exact (respaced_syntaxDecl hg hh _).suffix hm hn solid (he ▸ hs)
  | statement hk _ hg _ he =>
      exact keyword (no_slash_of_lineKeyword (mem_lineKeywords_of_statement hk)) hg (he ▸ hs)
  | rpc _ hg _ he =>
      exact (respaced_spaceRpc _).suffix hm hn solid (keyword (by decide) hg (he ▸ hs))
  | field => exact (respaced_spaceAssignment s).suffix hm hn solid hs
  | enumValue => exact (respaced_spaceAssignment s).suffix hm hn solid hs
  | other => exact hs

theorem eq_of_suffix_of_ink {r r' s : List Char} (hr : StartsSolid r) (hr' : StartsSolid r')
    (h : r <:+ s) (h' : r' <:+ s) (hi : ink r = ink r') : r = r' := by
  have shorter : ∀ {p q : List Char}, StartsSolid q → ink p = ink q → p <:+ q → p = q := by
    rintro p q hq hi ⟨w, rfl⟩
    rw [ink_append, List.self_eq_append_left, ink_eq_nil_iff] at hi
    cases w with
    | nil => rfl
    | cons c w =>
        rw [List.cons_append, startsSolid_cons, (blank_cons.1 hi).1] at hq
        cases hq
  rcases List.suffix_or_suffix_of_suffix h h' with hs | hs
  · exact shorter hr' hi hs
  · exact (shorter hr hi.symm hs).symm

theorem remark_spaced_of_unmarked {t : List Char} (ht : trim t = t)
    (hm : ∀ c ∈ remark t, isMark c = false) : remark (spaced t) = remark t := by
  by_cases hn : remark t = []
  · rw [hn, remark_spaced_eq_nil_iff, hn]
  · have hhead : (remark t).head? = some '/' := by
      obtain ⟨r, hr⟩ := startsWith_iff.1 (startsWith_remark hn)
      rw [← hr]
      rfl
    have hkept : remark t = remark (readLine t).2 :=
      eq_of_suffix_of_ink (startsSolid_remark t) (startsSolid_remark _)
        ((spelled_readLine t).suffix hhead hm (remark_suffix t)) (remark_suffix _)
        (respaced_readLine t).remark.2.ink
    obtain ⟨-, k, hk, he⟩ := remark_trim (readLine t).2
    rw [← hkept] at he
    have hend : EndsSolid (remark t) := by
      have := (trim_eq_self_iff.1 ht).2
      rwa [← beforeRemark_append_remark t, endsSolid_append hn] at this
    have hcut := trimEnd_append (s := remark (spaced t)) hk
    rw [spaced, ← he, hend.trimEnd] at hcut
    have hsolid : EndsSolid (remark (trim (readLine t).2)) := by
      by_cases hr : remark (trim (readLine t).2) = []
      · simp [hr]
      · have := endsSolid_trim (readLine t).2
        rwa [← beforeRemark_append_remark (trim (readLine t).2), endsSolid_append hr] at this
    rw [spaced, hcut, hsolid.trimEnd]

theorem keepsRemark_of_unmarked {t : List Char} (ht : trim t = t)
    (hm : ∀ c ∈ remark t, isMark c = false) : KeepsRemark t := by
  by_cases hn : remark t = []
  · exact .inl hn
  · refine .inr (.inr ⟨?_, remark_spaced_of_unmarked ht hm⟩)
    refine .inr (Option.eq_none_iff_forall_ne_some.2 ?_)
    rintro ⟨statement, closer⟩ hs
    obtain ⟨-, ⟨-, hr⟩ | ⟨hst, g, -, hr⟩⟩ := remark_split hs
    · exact hn hr
    · obtain ⟨-, -, -, -, -, hl, -⟩ := statementAndCloser?_eq_some_iff.1 hs
      rw [← beforeRemark_append_remark statement, List.getLast?_append_of_ne_nil _ hst] at hl
      have := hm ';' (by rw [hr]; exact List.mem_append_left _ (List.mem_of_getLast? hl))
      cases this

/-- Formatting keeps comments and code apart and unchanged if and only if each line keeps its
comment, as each does whose comment has no parentheses, semicolons, equals signs and opening
braces. -/
theorem comments_and_code_format_iff (x : List Char) :
    (comments (Source.format x) = comments x ∧ codeLexemes (Source.format x) = codeLexemes x ↔
        ∀ t ∈ codeLines x, KeepsRemark t) ∧
      ∀ t ∈ codeLines x, (∀ c ∈ remark t, isMark c = false) → KeepsRemark t := by
  refine ⟨⟨?_, ?_⟩, fun t ht hm => keepsRemark_of_unmarked (trim_of_mem_codeLines ht) hm⟩
  · rintro ⟨hc, -⟩
    exact (comments_format_eq_iff x).1 hc
  · intro h
    exact ⟨(comments_format_eq_iff x).2 h, codeLexemes_format_of_keeps h⟩

/-- A comment that ends like a statement before a closing brace loses the brace to the code. -/
theorem comment_loses_brace :
    ¬ ∀ x : List Char, comments (Source.format x) = comments x ∧
      codeLexemes (Source.format x) = codeLexemes x := by
  intro h
  have := (h "message A \x7b\n  int32 a = 1; // b; \x7d\n\x7d\n".toList).1
  revert this
  decide

end SchemaLint.Layout
