import SchemaLint.Proofs.Layout.CodeSpacing
import SchemaLint.Proofs.Layout.Remarks

/-! Closing braces after statements. A line that is a statement and the closing brace after it is
split before it is spaced, and only if nothing follows the brace, so a comment after the brace keeps
the two on one line, and so does a blank before the brace's semicolon that spacing takes away. -/

namespace SchemaLint.Layout
open SchemaLint.Text SchemaLint.Line

/-- A statement without braces, and a closing brace after it. -/
def ClosesStatement (s : List Char) : Prop :=
  ∃ statement g closer, s = statement ++ (g ++ closer) ∧ '{' ∉ statement ∧ '}' ∉ statement ∧
    statement.getLast? = some ';' ∧ Blank g ∧ (closer = ['}'] ∨ closer = ['}', ';'])

theorem closesStatement_iff {s : List Char} :
    ClosesStatement s ↔ (statementAndCloser? s).isSome := by
  rw [Option.isSome_iff_exists]
  constructor
  · rintro ⟨statement, g, closer, he, ho, hk, hl, hg, hc⟩
    have hcloser : isCloser closer := by rcases hc with rfl | rfl <;> rfl
    exact ⟨(statement, closer),
      statementAndCloser?_eq_some_iff.2 ⟨g, hg, he, ho, hk, hl, hcloser⟩⟩
  · rintro ⟨⟨statement, closer⟩, h⟩
    obtain ⟨g, hg, he, ho, hk, hl, hc⟩ := statementAndCloser?_eq_some_iff.1 h
    exact ⟨statement, g, closer, he, ho, hk, hl, hg, closer_cases hc⟩

instance (s : List Char) : Decidable (ClosesStatement s) :=
  decidable_of_iff _ closesStatement_iff.symm

/-- The line keeps a closing brace after its statement: it is not split, and its code has the
brace there once it is spaced. -/
def Joined (t : List Char) : Prop :=
  (isComment t ∨ ¬ ClosesStatement t) ∧ ClosesStatement (code (spaced t))

instance (t : List Char) : Decidable (Joined t) := inferInstanceAs (Decidable (_ ∧ _))

theorem mem_ink {c : Char} (hc : isBlank c = false) {s : List Char} : c ∈ ink s ↔ c ∈ s := by
  rw [← List.count_pos_iff, count_ink hc, List.count_pos_iff]

theorem not_closesStatement {s : List Char} (h : statementAndCloser? s = none) :
    ¬ ClosesStatement s := by
  rw [closesStatement_iff, h]
  exact Bool.false_ne_true

theorem not_closesStatement_of_no_brace {s : List Char} (h : '}' ∉ s) : ¬ ClosesStatement s :=
  not_closesStatement (statementAndCloser?_of_no_brace h)

theorem not_closesStatement_code_closing {t : List Char} (h : isClosingLine t) :
    ¬ ClosesStatement (code t) := by
  obtain ⟨r, rfl⟩ := isClosingLine_head h
  rintro ⟨statement, g, closer, he, -, hk, hl, -, -⟩
  obtain ⟨u, hu⟩ := code_isPrefix (t := '}' :: r) (startsSolid_cons.2 (by decide))
  cases statement with
  | nil => cases hl
  | cons c statement =>
      rw [he] at hu
      have hc : c = '}' := (List.cons.inj hu).1
      exact hk (hc ▸ List.mem_cons_self ..)

theorem no_brace_code_spaced {t : List Char} (h : '}' ∉ t) : '}' ∉ code (spaced t) := by
  intro hm
  have hspaced := mem_of_mem_trim ((beforeComment_isPrefix _).subset (mem_of_mem_trim hm))
  have hcount := (respaced_readLine t).count (c := '}') (by decide)
  rw [List.count_eq_zero.2 h] at hcount
  exact List.count_eq_zero.1 hcount hspaced

theorem filter_closes_cons {t : List Char} (h : ¬ ClosesStatement (code t))
    {ts : List (List Char)} : (t :: ts).filter (fun u => ClosesStatement (code u)) =
      ts.filter fun u => ClosesStatement (code u) :=
  List.filter_cons_of_neg (by simpa using h)

/-- Of the lines that a line becomes, one closes a statement if the line is joined, and none
otherwise. -/
theorem filter_outputs {t : List Char} (ht : trim t = t) :
    (outputs t).filter (fun u => ClosesStatement (code u)) =
      ([t].filter (fun u => Joined u)).map spaced := by
  have none : ¬ Joined t → ([t].filter (fun u => Joined u)).map spaced = [] := by
    intro h
    simp [h]
  have h := becomes t
  generalize outputs t = us at h ⊢
  cases h with
  | blank hn =>
      subst hn
      rfl
  | close hclose =>
      have hcode := not_closesStatement_code_closing hclose
      rw [filter_closes_cons hcode, none fun hj => hcode (spaced_of_closing ht hclose ▸ hj.2)]
      rfl
  | whole _ hw =>
      have hwhole := hw.imp_right not_closesStatement
      by_cases h : ClosesStatement (code (spaced t))
      · have hj : Joined t := ⟨hwhole, h⟩
        simp [h, hj]
      · rw [filter_closes_cons h, none fun hj => h hj.2]
        rfl
  | @split statement closer _ hc hs =>
      obtain ⟨-, -, -, -, hk, -, hcl⟩ := statementAndCloser?_eq_some_iff.1 hs
      have hcloser : ¬ ClosesStatement (code closer) := by
        rcases closer_cases hcl with rfl | rfl <;> decide
      have hstatement : ¬ ClosesStatement (code (spaced statement)) :=
        not_closesStatement_of_no_brace (no_brace_code_spaced hk)
      have hsplit : ClosesStatement t := closesStatement_iff.2 (by rw [hs]; rfl)
      have hjoined : ¬ Joined t := by
        rintro ⟨hcomment | hnot, -⟩
        · rw [hc] at hcomment
          cases hcomment
        · exact hnot hsplit
      rw [filter_closes_cons hstatement, filter_closes_cons hcloser, none hjoined]
      rfl

theorem ClosesStatement.no_open {s : List Char} (h : ClosesStatement s) : '{' ∉ s := by
  obtain ⟨statement, g, closer, rfl, ho, -, -, hg, hc⟩ := h
  have hblank : '{' ∉ g := hg.not_mem (by decide)
  have hcloser : '{' ∉ closer := by rcases hc with rfl | rfl <;> decide
  exact List.not_mem_append ho (List.not_mem_append hblank hcloser)

/-- An opener and its brace close no statement, whether on one line or on two. -/
theorem filter_braced (s : List Char) (hr : remark s = []) (_ : StartsWord s)
    (hs : statementAndCloser? (trim s) = none) :
    [trim (s ++ " \x7b".toList)].filter (fun u => ClosesStatement (code u)) =
      [trim s].filter (fun u => ClosesStatement (code u)) ++
        [['{']].filter (fun u => ClosesStatement (code u)) := by
  have hopener : ¬ ClosesStatement (code (trim s)) := by
    rw [code_of_remark (trim_trim s) (remark_trim_of_nil hr)]
    exact not_closesStatement hs
  have hbraced : ¬ ClosesStatement (code (trim (s ++ " \x7b".toList))) := by
    rw [code_of_remark (trim_trim _) (remark_trim_of_nil (remark_braced hr))]
    intro h
    refine h.no_open ?_
    rw [← mem_ink (by decide), ink_trim, mem_ink (by decide)]
    simp
  rw [filter_closes_cons hbraced, filter_closes_cons hopener]
  rfl

/-- Where the visible characters of a text come apart, the text does. -/
theorem exists_of_ink_eq {t u v : List Char} {c : Char} (h : ink t = u ++ c :: v) :
    ∃ s r, t = s ++ c :: r ∧ ink s = u ∧ ink r = v := by
  obtain ⟨s, r, rfl, hs, hr⟩ := List.filter_eq_append_iff.1 h
  obtain ⟨g, r, rfl, hg, -, hr⟩ := List.filter_eq_cons_iff.1 hr
  have hblank : Blank g := fun b hb => by simpa using hg b hb
  refine ⟨s ++ g, r, (List.append_assoc ..).symm, ?_, hr⟩
  rw [ink_append, ink_blank hblank, List.append_nil]
  exact hs

theorem getLast?_ink {s : List Char} (h : EndsSolid s) : (ink s).getLast? = s.getLast? := by
  rcases List.eq_nil_or_concat s with rfl | ⟨s, c, rfl⟩
  · rfl
  · rw [List.concat_eq_append, endsSolid_concat] at h
    rw [List.concat_eq_append, ink_append, ink_cons_of_not h, ink_nil, List.getLast?_concat,
      List.getLast?_concat]

theorem closesStatement_of_ink {s statement closer : List Char} (hs : ink s = ink statement)
    (ho : '{' ∉ statement) (hk : '}' ∉ statement) (hl : statement.getLast? = some ';')
    (hc : closer = ['}'] ∨ closer = ['}', ';']) : ClosesStatement (s ++ closer) := by
  obtain ⟨g, hg, he⟩ := exists_trimEnd s
  have hink : ink (trimEnd s) = ink statement := by
    rw [← hs]
    conv_rhs => rw [he, ink_append, ink_blank hg, List.append_nil]
  have hmem : ∀ {c}, isBlank c = false → c ∉ statement → c ∉ trimEnd s := by
    intro c hb hc hm
    rw [← mem_ink hb, hink, mem_ink hb] at hm
    exact hc hm
  have hsolid : EndsSolid statement := .of_getLast? hl (by decide)
  refine ⟨trimEnd s, g, closer, ?_, hmem (by decide) ho, hmem (by decide) hk, ?_, hg, hc⟩
  · rw [← List.append_assoc, ← he]
  · rw [← getLast?_ink (endsSolid_trimEnd s), hink, getLast?_ink hsolid, hl]

theorem eq_nil_of_blank_end {s g : List Char} (h : EndsSolid (s ++ g)) (hg : Blank g) : g = [] := by
  by_contra hn
  exact not_blank_of_endsSolid hn ((endsSolid_append hn).1 h) hg

/-- No white space stands between a closing brace and a semicolon. -/
def ClosersTight (s : List Char) : Prop :=
  ∀ u g v, Blank g → s = u ++ '}' :: (g ++ ';' :: v) → g = []

theorem ClosersTight.of_isPrefix {s t : List Char} (h : ClosersTight t) (hp : s <+: t) :
    ClosersTight s := by
  obtain ⟨r, rfl⟩ := hp
  intro u g v hg he
  refine h u g (v ++ r) hg ?_
  rw [he]
  simp

/-- Respacing may not part a brace from its semicolon, so a tight text closes a statement if a
respaced one does. -/
theorem ClosesStatement.of_ink_eq {s t : List Char} (h : ClosesStatement s) (hink : ink t = ink s)
    (hends : EndsSolid t) (htight : ClosersTight t) : ClosesStatement t := by
  obtain ⟨statement, g, closer, rfl, ho, hk, hl, hg, hc⟩ := h
  rw [ink_append, ink_append, ink_blank hg, List.nil_append] at hink
  rcases hc with rfl | rfl
  · obtain ⟨s, r, rfl, hs, hr⟩ := exists_of_ink_eq hink
    rw [List.append_cons] at hends
    rw [eq_nil_of_blank_end hends (ink_eq_nil_iff.1 hr)]
    exact closesStatement_of_ink hs ho hk hl (.inl rfl)
  · obtain ⟨s, r, rfl, hs, hr⟩ := exists_of_ink_eq hink
    obtain ⟨k, r, rfl, hk', hr⟩ := exists_of_ink_eq (u := []) hr
    rw [htight s k r (ink_eq_nil_iff.1 hk') rfl] at hends ⊢
    rw [List.nil_append, List.append_cons, List.append_cons] at hends
    rw [eq_nil_of_blank_end hends (ink_eq_nil_iff.1 hr)]
    exact closesStatement_of_ink hs ho hk hl (.inr rfl)

theorem ink_code_spaced {t : List Char} (h : '\n' ∉ t) : ink (code (spaced t)) = ink (code t) := by
  rw [← ink_compact, compact_code_spaced h, ink_compact]

/-- A tight line of code is joined only if a comment follows its closing brace. -/
theorem Joined.has_remark {t : List Char} (h : Joined t) (ht : trim t = t) (hnl : '\n' ∉ t)
    (hc : isComment t = false) (htight : ClosersTight t) :
    remark t ≠ [] ∧ ClosesStatement (code t) := by
  obtain ⟨hkept, hjoined⟩ := h
  rw [hc] at hkept
  have hprefix := code_isPrefix (trim_eq_self_iff.1 ht).1
  have hcode : ClosesStatement (code t) :=
    hjoined.of_ink_eq (ink_code_spaced hnl).symm (endsSolid_trim _) (htight.of_isPrefix hprefix)
  refine ⟨?_, hcode⟩
  intro hr
  rw [code_of_remark ht hr] at hcode
  exact hkept.resolve_left Bool.false_ne_true hcode

/-- The output lines that close a statement are the joined lines of the source, spaced. But for
lines that start with a star and braces apart from their semicolons, these are lines with a comment
after a statement and its closing brace. -/
theorem closers_format (x : List Char) :
    (codeLines (Source.format x)).filter (fun t => ClosesStatement (code t)) =
        ((codeLines x).filter (fun t => Joined t)).map spaced ∧
      ∀ t ∈ codeLines x, Joined t → isComment t = false → ClosersTight t →
        remark t ≠ [] ∧ ClosesStatement (code t) := by
  refine ⟨?_, fun t ht hj =>
    hj.has_remark (trim_of_mem_codeLines ht) (no_newline_of_mem_codeLines ht)⟩
  obtain ⟨out, m, n, hf, hx⟩ := collect_format (fun _ => [])
    (fun t => [t].filter fun u => ClosesStatement (code u)) (by rfl) filter_braced x
  have hblanks : ∀ k, (List.replicate k ([] : List (List Char))).flatten = [] := by simp
  rw [hblanks, List.append_nil] at hf hx
  calc (codeLines (Source.format x)).filter (fun t => ClosesStatement (code t))
    _ = out := by rw [codeLines, ← collect_filter, hf]
    _ = collect (fun _ => []) (fun t => ([t].filter fun u => Joined u).map spaced) false
          (Source.lines x) := by
        rw [← hx]
        refine collect_congr fun t ht => ?_
        rw [flatMap_filter_singleton, filter_outputs (trim_of_mem_codeLines ht)]
    _ = ((codeLines x).filter fun t => Joined t).map spaced := by
        rw [codeLines, ← collect_filter, collect_eq_flatMap,
          collect_eq_flatMap fun t => [t].filter fun u => Joined u, List.map_flatMap]

/-- A comment after the closing brace keeps it on the line of the statement. -/
theorem statement_keeps_closer :
    ¬ ∀ x, ∀ t ∈ codeLines (Source.format x), ¬ ClosesStatement (code t) := by
  intro h
  have := h "message A \x7b\n  int32 a = 1; \x7d // end\n\x7d\n".toList
  revert this
  decide

end SchemaLint.Layout
