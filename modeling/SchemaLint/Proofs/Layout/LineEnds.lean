import SchemaLint.Proofs.Layout.CodeSpacing
import SchemaLint.Proofs.Layout.Collect

/-! White space at the end of lines. A line is trimmed before it is spaced, and spacing puts white
space at its end only where it spaces an equals sign that nothing follows: in a syntax declaration
without a value. -/

namespace SchemaLint.Layout
open SchemaLint.Text SchemaLint.Line

/-- The text without its indentation, if it ends in white space. -/
def loose (s : List Char) : List (List Char) :=
  ([s].filter fun s => ¬ EndsSolid s).map trimStart

/-- How a syntax declaration without a value is spaced; no other line is. -/
def valueless (t : List Char) : List (List Char) :=
  ([t].filter fun t => syntaxRest? t = some []).map fun _ => "syntax = ".toList

theorem loose_of_endsSolid {s : List Char} (h : EndsSolid s) : loose s = [] := by
  simp [loose, h]

theorem loose_trim (s : List Char) : loose (trim s) = [] :=
  loose_of_endsSolid (endsSolid_trim s)

theorem valueless_of_ne {t : List Char} (h : syntaxRest? t ≠ some []) : valueless t = [] := by
  simp [valueless, h]

/-- Such a declaration is its keyword, its equals sign and white space. -/
theorem valueless_of_mem {c : Char} {t : List Char} (hc : c ∈ t) (hm : c = ';' ∨ c = '\x7d') :
    valueless t = [] := by
  apply valueless_of_ne
  intro h
  obtain ⟨g, k, hg, hk, -, rfl⟩ := syntaxRest?_eq_some_iff.1 h
  have hsolid : isBlank c = false ∧ c ∉ "syntax".toList ∧ c ≠ '=' := by
    rcases hm with rfl | rfl <;> decide
  have hblank : ∀ {g}, Blank g → c ∉ g := by
    intro g hg hm
    rw [hg c hm] at hsolid
    cases hsolid.1
  rw [List.append_nil, List.mem_append, List.mem_append, List.mem_cons] at hc
  rcases hc with hc | hc | hc | hc
  · exact hsolid.2.1 hc
  · exact hblank hg hc
  · exact hsolid.2.2 hc
  · exact hblank hk hc

/-- The first equals sign is spaced inside a text if any of its equals signs is. -/
theorem endsSolid_spaceEquals {lead more : List Char} (hn : more ≠ [])
    (h : EndsSolid (lead ++ '=' :: more)) : EndsSolid (spaceEquals (lead ++ '=' :: more)) := by
  obtain ⟨front, rest, he, hfirst⟩ :=
    List.eq_append_cons_of_mem (show '=' ∈ lead ++ '=' :: more by simp)
  have hrest : rest ≠ [] := by
    rintro rfl
    have hlast := congrArg List.dropLast he
    rw [List.dropLast_append_of_ne_nil (List.cons_ne_nil _ _), List.dropLast_cons_of_ne_nil hn,
      List.dropLast_concat] at hlast
    apply hfirst
    simp [← hlast]
  rw [he, endsSolid_append (List.cons_ne_nil _ _), ← List.singleton_append,
    endsSolid_append hrest] at h
  have hsolid : trimStart rest ≠ [] :=
    fun hblank => not_blank_of_endsSolid hrest h (trimStart_eq_nil_iff.1 hblank)
  rw [he, spaceEquals_of_mem hfirst, endsSolid_append hsolid]
  exact h.trimStart

theorem exists_equals_of_fieldName? {s name : List Char} (h : fieldName? s = some name) :
    ∃ lead more, more ≠ [] ∧ s = lead ++ '=' :: more := by
  obtain ⟨pre, type, gap, name, rest, hn, rfl⟩ :=
    fieldName?_isSome_iff.1 (Option.isSome_iff_exists.2 ⟨name, h⟩)
  obtain ⟨g, k, c, z, -, -, -, rfl⟩ := hn.assigns
  exact ⟨pre ++ (type ++ (gap ++ (name ++ g))), k ++ c :: z, by simp, by simp⟩

theorem exists_equals_of_assignment? {s : List Char} {a : Assignment × List Char}
    (h : assignment? s = some a) : ∃ lead more, more ≠ [] ∧ s = lead ++ '=' :: more := by
  obtain ⟨name, g, k, num, z, -, -, -, -, hnum, rfl⟩ :=
    assignment?_isSome_iff.1 (Option.isSome_iff_exists.2 ⟨a, h⟩)
  exact ⟨name ++ g, k ++ (num ++ z), by simp [hnum.ne_nil], by simp⟩

theorem endsSolid_spaceAssignment {s : List Char} (hs : EndsSolid s)
    (h : ∃ lead more, more ≠ [] ∧ s = lead ++ '=' :: more) : EndsSolid (spaceAssignment s) := by
  obtain ⟨lead, more, hn, rfl⟩ := h
  exact endsSolid_tightenFirstSemicolon (endsSolid_spaceEquals hn hs)

/-- A trimmed line ends solidly in normal spacing, or it is a syntax declaration without a
value. -/
theorem Spelled.endsSolid {s t : List Char} {category : Category} (h : Spelled s category t)
    (hs : trim s = s) : EndsSolid t ∨ syntaxRest? s = some [] := by
  have hends := (trim_eq_self_iff.1 hs).2
  cases h with
  | comment => exact .inl hends
  | block hk hn hg hstart he =>
      obtain ⟨hrest, hends⟩ := endsSolid_rest hs hn hg he
      obtain ⟨rest', hn', -, hends', hopener, -⟩ := spaceOpener_eq hk hrest hstart hends
      rw [hopener]
      exact .inl (endsSolid_spaceKeyword hn' hends')
  | @syntaxDecl g k rest hg hk hstart he =>
      by_cases hn : rest = []
      · exact .inr (syntaxRest?_eq_some_iff.2 ⟨g, k, hg, hk, hn ▸ hstart, hn ▸ he⟩)
      · have hassoc : s = ("syntax".toList ++ (g ++ '=' :: k)) ++ rest := by simp [he]
        rw [hassoc, endsSolid_append hn] at hends
        exact .inl ((endsSolid_append hn).2 hends)
  | statement hk hn hg hstart he =>
      obtain ⟨hrest, hends⟩ := endsSolid_rest hs hn hg he
      exact .inl (endsSolid_spaceKeyword hrest hends)
  | rpc hn hg hstart he =>
      obtain ⟨hrest, hends⟩ := endsSolid_rest hs hn hg he
      rw [spaceRpc_eq]
      exact .inl (endsSolid_spaceMethod (by simp [spaceKeyword])
        (endsSolid_spaceKeyword hrest hends)).2
  | field _ _ _ hname =>
      exact .inl (endsSolid_spaceAssignment hends (exists_equals_of_fieldName? hname))
  | enumValue _ _ ha =>
      exact .inl (endsSolid_spaceAssignment hends (exists_equals_of_assignment? ha))
  | other => exact .inl hends

theorem readLine_valueless {s : List Char} (h : syntaxRest? s = some []) :
    readLine s = (.syntaxDecl, "syntax = ".toList) := by
  obtain ⟨g, k, hg, hk, hstart, rfl⟩ := syntaxRest?_eq_some_iff.1 h
  exact readLine_syntaxDecl hg hk hstart

theorem loose_readLine {s : List Char} (hs : trim s = s) :
    loose (readLine s).2 = valueless s := by
  by_cases h : syntaxRest? s = some []
  · have hloose : loose "syntax = ".toList = ["syntax = ".toList] := by decide
    rw [readLine_valueless h, hloose]
    simp [valueless, h]
  · rw [valueless_of_ne h]
    exact loose_of_endsSolid (((spelled_readLine s).endsSolid hs).resolve_right h)

theorem loose_line (t : Token) : loose t.line = loose t.text := by
  obtain ⟨g, hg, he⟩ := t.line_eq
  by_cases hn : t.text = []
  · rw [Token.line_eq_nil_iff.2 hn, hn]
  · have hends : EndsSolid t.line ↔ EndsSolid t.text := by rw [he, endsSolid_append hn]
    have hstart : trimStart t.line = trimStart t.text := by rw [he, trimStart_append hg]
    simp only [loose, List.filter_cons, List.filter_nil, hends]
    split
    · rw [List.map_singleton, List.map_singleton, hstart]
    · rfl

theorem valueless_closing {t : List Char} (h : isClosingLine t) : valueless t = [] := by
  obtain ⟨r, rfl⟩ := isClosingLine_head h
  exact valueless_of_mem (List.mem_cons_self ..) (.inr rfl)

/-- A statement has a semicolon, which no such declaration has. -/
theorem valueless_split {t statement closer : List Char}
    (h : statementAndCloser? t = some (statement, closer)) :
    valueless t = [] ∧ valueless statement = [] := by
  obtain ⟨g, -, he, -, -, hlast, -⟩ := statementAndCloser?_eq_some_iff.1 h
  have hsemicolon : ';' ∈ statement := List.mem_of_getLast? hlast
  have hline : ';' ∈ t := he ▸ List.mem_append_left _ hsemicolon
  exact ⟨valueless_of_mem hline (.inl rfl), valueless_of_mem hsemicolon (.inl rfl)⟩

theorem valueless_of_wantsBrace {d : Nat} {l : List Char} (hw : (lineToken d l).wantsBrace) :
    valueless (trim l) = [] := by
  apply valueless_of_ne
  intro h
  have hblock : (readLine (trim l)).1 = .block := (Token.wantsBrace_iff.1 hw).1
  rw [readLine_valueless h] at hblock
  cases hblock

/-- The tokens whose text ends in white space are those of syntax declarations without a value. -/
theorem Reads.loose {d : Nat} {b : Bool} {ls : List (List Char)} {ts : List Token}
    (h : Reads d b ls ts) :
    (ts.flatMap fun t => Layout.loose t.text) = collect (fun _ => []) valueless b ls := by
  induction h with
  | done => rfl
  | blank hl _ ih => rw [collect_blank (by decide) hl, ih]
  | block hb _ ih => rw [List.flatMap_cons, loose_trim, collect_block hb, ih]
  | @close d l ls ts hc _ ih =>
      obtain ⟨r, hr⟩ := isClosingLine_head hc
      rw [List.flatMap_cons, loose_trim, ih, collect_code (by rw [hr]; rfl), valueless_closing hc]
  | @split d l statement closer ls ts hc hs _ ih =>
      obtain ⟨hts, hcode, htc, hcl⟩ := isCode_of_split hc hs
      obtain ⟨r, hr⟩ := isClosingLine_head hcl
      obtain ⟨hline, hstatement⟩ := valueless_split hs
      rw [ih, collect_code hcode.noBlock, collect_code (by rw [htc, hr]; rfl),
        collect_code (opensBlock_of_not_isComment hc), hline, hts, hstatement, htc,
        valueless_closing hcl]
      rfl
  | @line d l ls ts hcode _ _ ih =>
      rw [List.flatMap_cons, ih, collect_code hcode.noBlock]
      exact congrArg (· ++ _) (loose_readLine (trim_trim l))
  | @braced d l brace gap ls ts hcode hw hgap hbr _ ih =>
      have htext : Layout.loose (lineToken d l).braced.text = [] := by
        apply loose_of_endsSolid
        exact (endsSolid_append (by decide)).2 (by decide)
      rw [List.flatMap_cons, ih, htext, collect_code hcode.noBlock,
        valueless_of_wantsBrace hw, collect_blanks _ (by decide) hgap,
        collect_code (by rw [hbr]; rfl), hbr]
      rfl

/-- The output lines that end in white space are the syntax declarations of the source that have no
value, and each is the keyword and its spaced equals sign. So no line ends in white space exactly if
no line outside block comments is such a declaration. -/
theorem line_ends_format (x : List Char) :
    ((Source.lines (Source.format x)).filter fun l => ¬ EndsSolid l).map trimStart =
        ((codeLines x).filter fun t => syntaxRest? t = some []).map (fun _ => "syntax = ".toList) ∧
      ((∀ l ∈ Source.lines (Source.format x), EndsSolid l) ↔
        ∀ t ∈ codeLines x, syntaxRest? t ≠ some []) := by
  have hlines : ((Source.lines (Source.format x)).filter fun l => ¬ EndsSolid l).map trimStart =
      ((codeLines x).filter fun t => syntaxRest? t = some []).map fun _ => "syntax = ".toList := by
    apply Exists.elim (exists_reads 0 false (Source.lines x))
    intro ts h
    calc ((Source.lines (Source.format x)).filter fun l => ¬ EndsSolid l).map trimStart
      _ = (Source.lines (Source.format x)).flatMap loose := by
          rw [← flatMap_filter_singleton, List.map_flatMap]
          rfl
      _ = ts.flatMap fun t => loose t.line := by
          rw [h.lines_format, List.flatMap_append, flatMap_dropFinalBlanks loose (by decide),
            flatMap_linesAfter loose (by decide)]
          exact List.append_nil _
      _ = collect (fun _ => []) valueless false (Source.lines x) := by
          rw [← h.loose]
          exact congrArg (ts.flatMap ·) (funext loose_line)
      _ = _ := by
          rw [collect_eq_flatMap, ← flatMap_filter_singleton _ (codeLines x), List.map_flatMap]
          rfl
  refine ⟨hlines, ?_⟩
  have hnone := congrArg (· = []) hlines
  simpa [List.filter_eq_nil_iff] using hnone

/-- A declaration that breaks off after its equals sign gets a space after it. -/
theorem line_end_loose : ¬ ∀ x, ∀ l ∈ Source.lines (Source.format x), EndsSolid l := by
  intro h
  have := h "syntax =\n".toList
  revert this
  decide

end SchemaLint.Layout
