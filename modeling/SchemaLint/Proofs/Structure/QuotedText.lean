import SchemaLint.Proofs.Structure.Spacing

/-! Quoted text in the structural scan. The scan knows no quotes: braces between them open and close
blocks, and two slashes between them start a remark that takes the closing quote and the semicolon
with it. -/

namespace SchemaLint.Structure
open SchemaLint.Text SchemaLint.Line SchemaLint.Layout

/-- What stands before the quoted text of an import or of an option. -/
inductive QuotedLead : List Char → Prop
  | importPath : QuotedLead "import ".toList
  | option {name : List Char} :
      (∀ c ∈ name, isWord c) → QuotedLead ("option".toList ++ ' ' :: (name ++ " = ".toList))

/-- A statement that ends with a quoted text. -/
def quotedLine (lead text : List Char) : List Char :=
  lead ++ '"' :: (text ++ "\";".toList)

/-- The scan passes a quoted text over: before its first two slashes the braces are as many open as
closed, and if there are two slashes, then a brace opens before them, or a semicolon stands there
that nothing or only a block comment follows. -/
structure PassedOver (text : List Char) : Prop where
  even : (beforeRemark text).count '{' = (beforeRemark text).count '}'
  ended : remark text = [] ∨ '{' ∈ beforeRemark text ∨ ';' ∈ beforeRemark text ∧
    (trim (afterLastSemicolon (beforeRemark text)) = [] ∨
      startsWith "/*".toList (trim (afterLastSemicolon (beforeRemark text))))

section
variable {lead : List Char}

theorem QuotedLead.led (h : QuotedLead lead) :
    ∃ keyword ∈ ["import", "option"], ∃ t, lead = keyword.toList ++ ' ' :: t := by
  cases h with
  | importPath => exact ⟨"import", by decide, [], rfl⟩
  | option => exact ⟨"option", by decide, _, rfl⟩

theorem QuotedLead.not_mem (h : QuotedLead lead) {c : Char} (hc : c ∈ ['/', ';', '{', '}', '\n']) :
    c ∉ lead := by
  have hplain : ∀ d ∈ ['/', ';', '{', '}', '\n'], isWord d = false ∧ d ∉ "import ".toList ∧
      d ∉ "option".toList ∧ d ≠ ' ' ∧ d ∉ " = ".toList := by decide
  obtain ⟨hword, himport, hoption, hblank, hequals⟩ := hplain c hc
  cases h with
  | importPath => exact himport
  | @option name hname =>
      have hn : c ∉ name := fun hm => by
        rw [hname c hm] at hword
        cases hword
      simp only [List.mem_append, List.mem_cons, not_or]
      exact ⟨hoption, hblank, hn, hequals⟩

theorem QuotedLead.firstWord (h : QuotedLead lead) (t : List Char) :
    ∃ keyword ∈ ["import", "option"], Line.firstWord (lead ++ t) = keyword.toList := by
  obtain ⟨keyword, hk, u, rfl⟩ := h.led
  have hword : ∀ k ∈ ["import", "option"], ∀ c ∈ k.toList, isWord c := by decide
  refine ⟨keyword, hk, ?_⟩
  rw [List.append_assoc, List.cons_append]
  exact firstWord_keyword (hword keyword hk) _

theorem QuotedLead.startsWord (h : QuotedLead lead) (t : List Char) : StartsWord (lead ++ t) := by
  obtain ⟨keyword, hk, hw⟩ := h.firstWord t
  have hne : ∀ k ∈ ["import", "option"], k.toList ≠ [] := by decide
  exact startsWord_of_firstWord (hw ▸ hne keyword hk)

theorem QuotedLead.scanCode (h : QuotedLead lead) (n indent : Nat) (t : List Char) :
    Structure.scanCode {} n indent (lead ++ t) =
      ({ stack := (List.replicate (t.count '{') ⟨.plain, [], n⟩).drop (t.count '}') },
        List.replicate (t.count '}' - t.count '{') { line := n, cause := .unexpectedClose } ++
          trailingFaults n indent (lead ++ t) ++ semicolonFaults n indent (lead ++ t)) := by
  obtain ⟨keyword, hk, hw⟩ := h.firstWord t
  have hopener : opener? (lead ++ t) = none := by
    have hne : ∀ k ∈ ["import", "option"], ∀ kind ∈ BlockKind.declared,
        kind.word.toList ≠ k.toList := by decide
    exact opener?_eq_none (hw ▸ hne keyword hk)
  have hsyntax : syntaxCauses (lead ++ t) = [] := by
    have hne : ∀ k ∈ ["import", "option"], "syntax".toList ≠ k.toList := by decide
    exact syntaxCauses_of_firstWord (hw ▸ hne keyword hk)
  have htop : isTopLevel (lead ++ t) := by
    obtain ⟨k, hk, u, rfl⟩ := h.led
    rw [List.append_assoc, List.cons_append]
    have hmem : ∀ k ∈ ["import", "option"], k ∈ ["syntax", "package", "import", "option", "message",
        "enum", "service", "extend"] := by decide
    exact isTopLevel_keyword (hmem k hk) _
  have hopen : (lead ++ t).count '{' = t.count '{' := by
    rw [List.count_append, List.count_eq_zero.2 (h.not_mem (by decide)), Nat.zero_add]
  have hclose : (lead ++ t).count '}' = t.count '}' := by
    rw [List.count_append, List.count_eq_zero.2 (h.not_mem (by decide)), Nat.zero_add]
  have hblocks : blocks {} n (lead ++ t) =
      { stack := (List.replicate (t.count '{') ⟨.plain, [], n⟩).drop (t.count '}'),
        faults := List.replicate (t.count '}' - t.count '{')
          { line := n, cause := .unexpectedClose } } := by
    rw [blocks, declare_of_none hopener, balance, hopen, hclose]
    simp [settle]
  have hrpc : rpcCauses (State.context {}) (lead ++ t) = [] := rpcCauses_of_ne (by decide)
  rw [Structure.scanCode, hblocks, hsyntax, hrpc, topLevelCauses_of_isTopLevel _ htop]
  simp [State.context, memberCauses]

/-- The line goes unnoticed exactly if its braces are even, nothing follows a semicolon and a
semicolon or a brace is there. -/
theorem QuotedLead.scanCode_eq_iff (h : QuotedLead lead) (n indent : Nat) (t : List Char) :
    Structure.scanCode {} n indent (lead ++ t) = ({}, []) ↔ t.count '{' = t.count '}' ∧
      trailingFaults n indent (lead ++ t) = [] ∧ (';' ∈ t ∨ '{' ∈ t) := by
  have hsemicolon : semicolonFaults n indent (lead ++ t) = [] ↔ ';' ∈ t ∨ '{' ∈ t := by
    obtain ⟨keyword, hk, u, rfl⟩ := h.led
    have hmem : ∀ k ∈ ["import", "option"], k ∈ ["syntax", "package", "import", "option"] := by
      decide
    have hkey : (afterKeyword? ["syntax", "package", "import", "option"]
        (keyword.toList ++ ' ' :: (u ++ t))).isSome := afterKeyword?_isSome (hmem keyword hk) _
    have hno : ';' ∉ keyword.toList ++ ' ' :: u ∧ '{' ∉ keyword.toList ++ ' ' :: u :=
      ⟨h.not_mem (by decide), h.not_mem (by decide)⟩
    have hmemAppend : ∀ {c}, c ∉ keyword.toList ++ ' ' :: u →
        (c ∈ keyword.toList ++ ' ' :: (u ++ t) ↔ c ∈ t) := by
      intro c hc
      rw [← List.cons_append, ← List.append_assoc, List.mem_append, or_iff_right hc]
    rw [List.append_assoc, List.cons_append, semicolonFaults, lacksSemicolon, hkey]
    by_cases hs : ';' ∈ t <;> by_cases hb : '{' ∈ t <;>
      simp [hs, hb, hmemAppend hno.1, hmemAppend hno.2]
  have hstack : (List.replicate (t.count '{') (⟨.plain, [], n⟩ : Block)).drop (t.count '}') = [] ↔
      t.count '{' ≤ t.count '}' := by
    rw [List.drop_eq_nil_iff, List.length_replicate]
  rw [h.scanCode, Prod.mk.injEq, State.mk.injEq, hstack]
  simp only [List.append_eq_nil_iff, hsemicolon, List.replicate_eq_nil_iff, and_true]
  constructor
  · rintro ⟨hle, ⟨hge, htrailing⟩, hs⟩
    exact ⟨by omega, htrailing, hs⟩
  · rintro ⟨he, htrailing, hs⟩
    exact ⟨by omega, ⟨by omega, htrailing⟩, hs⟩

end

section
variable {lead text : List Char} (h : QuotedLead lead)
include h

theorem QuotedLead.trim_line (text : List Char) :
    trim (quotedLine lead text) = quotedLine lead text := by
  have hline : quotedLine lead text = lead ++ ('"' :: text ++ ['"']) ++ [';'] := by
    simp [quotedLine]
  refine trim_eq_self_iff.2 ⟨?_, hline ▸ endsSolid_concat.2 (by decide)⟩
  obtain ⟨c, hc, hw⟩ := h.startsWord ('"' :: (text ++ "\";".toList))
  exact startsSolid_of_head? hw hc

/-- Two slashes between the quotes end the code before the closing quote. -/
theorem QuotedLead.code_line (hnl : '\n' ∉ quotedLine lead text) :
    code (quotedLine lead text) = lead ++ '"' ::
      if remark text = [] then text ++ "\";".toList else trimEnd (beforeRemark text) := by
  have hbefore : beforeRemark (quotedLine lead text) =
      lead ++ '"' :: beforeRemark (text ++ "\";".toList) := by
    rw [quotedLine, (remark_append_of_no_slash (h.not_mem (by decide)) _).2,
      ← List.singleton_append, (remark_append_of_no_slash (by decide) _).2]
    rfl
  rw [code_eq hnl, hbefore]
  split
  case isTrue hr =>
    rw [(remark_append_of_nil hr (.of_head (by decide))).2,
      beforeRemark_of_nil (by decide : remark "\";".toList = [])]
    exact h.trim_line text
  case isFalse hr =>
    obtain ⟨c, hc, hw⟩ := h.startsWord ('"' :: beforeRemark text)
    rw [(remark_append_of_ne_nil hr _).2, trim, (startsSolid_of_head? hw hc).trimStart,
      ← List.singleton_append, ← List.append_assoc,
      trimEnd_append_of_solid (endsSolid_concat.2 (by decide)), List.append_assoc,
      List.singleton_append]

end

theorem count_trimEnd {c : Char} (hc : isBlank c = false) (s : List Char) :
    (trimEnd s).count c = s.count c := by
  obtain ⟨g, hg, he⟩ := exists_trimEnd s
  have hgap : c ∉ g := fun hm => by
    rw [hg c hm] at hc
    cases hc
  conv_rhs => rw [he, List.count_append, List.count_eq_zero.2 hgap, Nat.add_zero]

theorem mem_trimEnd {c : Char} (hc : isBlank c = false) {s : List Char} :
    c ∈ trimEnd s ↔ c ∈ s := by
  rw [← List.count_pos_iff, ← List.count_pos_iff, count_trimEnd hc]

theorem trim_afterLastSemicolon_trimEnd (lead : List Char) {p : List Char} (h : ';' ∈ p) :
    trim (afterLastSemicolon (lead ++ trimEnd p)) = trim (afterLastSemicolon p) := by
  obtain ⟨a, b, hb, rfl⟩ := exists_last_semicolon h
  have hend : trimEnd (a ++ ';' :: b) = a ++ ';' :: trimEnd b := by
    rw [List.append_cons, trimEnd_append_of_solid (endsSolid_concat.2 (by decide)),
      ← List.append_cons]
  have hb' : ';' ∉ trimEnd b := fun hm => hb ((trimEnd_isPrefix b).subset hm)
  rw [hend, ← List.append_assoc, afterLastSemicolon_append hb', afterLastSemicolon_append hb, trim,
    trimStart_trimEnd, (endsSolid_trimEnd _).trimEnd, trim]

theorem not_startsWith_slashes_afterLastSemicolon (s : List Char) :
    startsWith "//".toList (trim (afterLastSemicolon (beforeRemark s))) = false := by
  refine Bool.eq_false_iff.2 fun hs => remark_eq_nil_iff.1 (remark_beforeRemark s) ?_
  obtain ⟨g, k, -, -, he⟩ := exists_trim (afterLastSemicolon (beforeRemark s))
  have hsuffix : afterLastSemicolon (beforeRemark s) <:+ beforeRemark s := by
    rw [afterLastSemicolon, ← List.reverse_prefix, List.reverse_reverse]
    exact List.takeWhile_prefix _
  refine someEnd_iff.2 ⟨trim (afterLastSemicolon (beforeRemark s)) ++ k, ?_, ?_⟩
  · exact List.IsSuffix.trans ⟨g, by rw [← List.append_assoc, ← he]⟩ hsuffix
  · obtain ⟨t, ht⟩ := startsWith_iff.1 hs
    exact startsWith_iff.2 ⟨t ++ k, by rw [← List.append_assoc, ht]⟩

theorem trailingFaults_nil_iff {n indent : Nat} {code : List Char} :
    trailingFaults n indent code = [] ↔ (';' ∈ code →
      '{' ∈ code ∨ trim (afterLastSemicolon code) = [] ∨
        startsWith "//".toList (trim (afterLastSemicolon code)) ∨
        startsWith "/*".toList (trim (afterLastSemicolon code))) := by
  simp only [trailingFaults, ite_eq_left_iff, List.cons_ne_nil, imp_false, not_not, Bool.or_eq_true,
    Bool.not_eq_true', decide_eq_true_eq, List.contains_iff_mem, or_assoc]
  by_cases h : ';' ∈ code <;> simp [h]

/-- Nothing trails the last semicolon of the line, or what trails it is a block comment. -/
theorem QuotedLead.trailingFaults_nil_iff {lead : List Char} (h : QuotedLead lead) (n indent : Nat)
    (text : List Char) :
    trailingFaults n indent (lead ++ '"' :: trimEnd (beforeRemark text)) = [] ↔
      (';' ∈ beforeRemark text → '{' ∈ beforeRemark text ∨
        trim (afterLastSemicolon (beforeRemark text)) = [] ∨
        startsWith "/*".toList (trim (afterLastSemicolon (beforeRemark text)))) := by
  have hmem : ∀ c, c ∉ lead → c ≠ '"' → isBlank c = false →
      (c ∈ lead ++ '"' :: trimEnd (beforeRemark text) ↔ c ∈ beforeRemark text) := by
    intro c hl hq hc
    rw [List.mem_append, or_iff_right hl, List.mem_cons, or_iff_right hq, mem_trimEnd hc]
  rw [Structure.trailingFaults_nil_iff, hmem ';' (h.not_mem (by decide)) (by decide) (by decide),
    hmem '{' (h.not_mem (by decide)) (by decide) (by decide)]
  refine imp_congr_right fun hs => ?_
  have htrim := trim_afterLastSemicolon_trimEnd (lead ++ ['"']) hs
  rw [List.append_assoc, List.singleton_append] at htrim
  rw [htrim, not_startsWith_slashes_afterLastSemicolon]
  simp

/-- Outside every block, an import or an option with a quoted text raises no issue and leaves the
scan as it was exactly if the scan passes the text over. -/
theorem step_quotedLine_iff {s : State} {lead text : List Char} (htop : s.atTopLevel)
    (hcomment : s.inComment = false) (hlead : QuotedLead lead) (hnl : '\n' ∉ text) (n : Nat) :
    step s (quotedLine lead text, n) = (s, []) ↔ PassedOver text := by
  obtain rfl : s = {} := by
    obtain ⟨stack, pending, inComment⟩ := s
    simp only [State.atTopLevel, Bool.and_eq_true, List.isEmpty_iff, Option.isNone_iff_eq_none]
      at htop
    simp_all
  have hline : '\n' ∉ quotedLine lead text := by
    simp [quotedLine, hlead.not_mem (c := '\n') (by decide), hnl]
  have htrim := hlead.trim_line text
  obtain ⟨c, hc, hw⟩ := hlead.startsWord ('"' :: (text ++ "\";".toList))
  have hcode : isComment (quotedLine lead text) = false := isComment_of_word hc hw
  have hn : quotedLine lead text ≠ [] := by simp [quotedLine]
  rw [step_of_code rfl (htrim.symm ▸ hn) (htrim.symm ▸ hcode), htrim, hlead.code_line hline]
  by_cases hr : remark text = []
  · have hbefore := beforeRemark_of_nil hr
    have hends : lead ++ '"' :: (text ++ "\";".toList) =
        (lead ++ '"' :: (text ++ ['"'])) ++ [';'] := by simp
    rw [if_pos hr, hlead.scanCode_eq_iff, hends, trailingFaults_concat]
    constructor
    · rintro ⟨heven, -, -⟩
      exact ⟨by simpa [hbefore] using heven, .inl hr⟩
    · rintro ⟨heven, -⟩
      exact ⟨by simpa [hbefore] using heven, rfl, .inl (by simp)⟩
  · have hcount : ∀ c, c ≠ '"' → isBlank c = false →
        ('"' :: trimEnd (beforeRemark text)).count c = (beforeRemark text).count c := by
      intro c hq hc
      rw [List.count_cons_of_ne hq.symm, count_trimEnd hc]
    have hmem : ∀ c, c ≠ '"' → isBlank c = false →
        (c ∈ '"' :: trimEnd (beforeRemark text) ↔ c ∈ beforeRemark text) := by
      intro c hq hc
      rw [← List.count_pos_iff, ← List.count_pos_iff, hcount c hq hc]
    rw [if_neg hr, hlead.scanCode_eq_iff, hlead.trailingFaults_nil_iff,
      hcount '{' (by decide) (by decide), hcount '}' (by decide) (by decide),
      hmem ';' (by decide) (by decide), hmem '{' (by decide) (by decide)]
    constructor
    · rintro ⟨heven, htrailing, hends⟩
      refine ⟨heven, .inr ?_⟩
      by_cases hbrace : '{' ∈ beforeRemark text
      · exact .inl hbrace
      · have hsemicolon := hends.resolve_right hbrace
        exact .inr ⟨hsemicolon, (htrailing hsemicolon).resolve_left hbrace⟩
    · rintro ⟨heven, hends⟩
      rcases hends.resolve_left hr with hbrace | ⟨hsemicolon, hrest⟩
      · exact ⟨heven, fun _ => .inl hbrace, .inr hbrace⟩
      · exact ⟨heven, fun _ => .inr hrest, .inl hsemicolon⟩

/-- A path with a pair of braces is passed over. -/
theorem step_quotedLine_iff_path :
    (State.atTopLevel {} ∧ State.inComment {} = false ∧ QuotedLead "import ".toList ∧
        '\n' ∉ "a/\x7bb\x7d.proto".toList ∧ PassedOver "a/\x7bb\x7d.proto".toList) ∧
      step {} (quotedLine "import ".toList "a/\x7bb\x7d.proto".toList, 1) = ({}, []) := by
  have hpassed : PassedOver "a/\x7bb\x7d.proto".toList := ⟨by decide, .inl (by decide)⟩
  exact ⟨⟨by decide, by decide, .importPath, by decide, hpassed⟩,
    (step_quotedLine_iff (by decide) (by decide) .importPath (by decide) 1).2 hpassed⟩

/-- Two slashes between the quotes hide the semicolon of the statement. -/
theorem not_passed_over_address :
    ¬ ∀ (s : State) (text : List Char), s.atTopLevel → s.inComment = false →
      '"' ∉ text → '\\' ∉ text → '\n' ∉ text → ∀ n,
      step s (quotedLine "import ".toList text, n) = (s, []) := by
  intro h
  have := h {} "http://a".toList (by decide) (by decide) (by decide) (by decide) (by decide) 1
  revert this
  decide

end SchemaLint.Structure
