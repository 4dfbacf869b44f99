import SchemaLint.Proofs.Layout.Rendering
import SchemaLint.Proofs.Line.Trailed
import SchemaLint.Proofs.Style.Nesting
import SchemaLint.Source

/-! Comment text in the style pass. The pass reads each line with its comment; all its readers but
one stop where the code ends, so sources that differ in their comments alone get the same findings,
long lines and the names behind a map type left open at a comment apart. -/

namespace SchemaLint.Style
open SchemaLint.Text SchemaLint.Line

/-- The words that the pass reads together with the space behind them. -/
def spacedWords : List String := ["package", "import", "import public", "service", "rpc"]

/-- Two lines, inside a block comment or outside it, that differ in their comment alone. Where the
code is nothing but a word that is read with the space behind it, the space counts as code. -/
inductive Retells : Bool → List Char → List Char → Prop
  | same (inComment : Bool) (l : List Char) : Retells inComment l l
  | inside {l k : List Char} : closesBlock (trim k) = closesBlock (trim l) → Retells true l k
  | comment {mark : String} {l k : List Char} : mark ∈ ["//", "/*", "*"] →
      startsWith mark.toList (trim l) → startsWith mark.toList (trim k) →
      closesBlock (trim k) = closesBlock (trim l) → Retells false l k
  | remark {l k : List Char} : isComment (trim l) = false → isComment (trim k) = false →
      remark (trim l) ≠ [] → remark (trim k) ≠ [] → code (trim k) = code (trim l) →
      (∀ word ∈ spacedWords, code (trim l) = word.toList →
        beforeRemark (trim k) = beforeRemark (trim l)) → Retells false l k

/-- Two sources that differ in their comments alone. -/
inductive Retold : Bool → List (List Char) → List (List Char) → Prop
  | nil (inComment : Bool) : Retold inComment [] []
  | cons {inComment : Bool} {l k : List Char} {ls ks : List (List Char)} :
      Retells inComment l k → Retold (blockAfter inComment (trim l)) ls ks →
      Retold inComment (l :: ls) (k :: ks)

/-- The lines that differ and whose code leaves a map type open, by their numbers from `n` on. -/
def openLines : Bool → Nat → List (List Char) → List (List Char) → List Nat
  | inComment, n, l :: ls, k :: ks =>
    (if l ≠ k && leavesMapOpen (codeOf inComment l) then [n] else []) ++
      openLines (blockAfter inComment (trim l)) (n + 1) ls ks
  | _, _, _, _ => []

/-- The findings apart from long lines and from the names of fields at some lines. -/
def judged (skipped : List Nat) (fs : List Finding) : List Finding :=
  fs.filter fun f => f.cause.rule ≠ .maxLineLength &&
    !(f.cause.rule = .fieldNameSnakeCase && skipped.contains f.line)

@[simp] theorem judged_append (skipped : List Nat) (fs gs : List Finding) :
    judged skipped (fs ++ gs) = judged skipped fs ++ judged skipped gs :=
  List.filter_append ..

@[simp] theorem judged_length (skipped : List Nat) (n : Nat) (raw : List Char) :
    judged skipped (lengthFindings n raw) = [] := by
  unfold lengthFindings
  split <;> rfl

/-- Every reader but that of fields finds the same in both texts. -/
structure Indistinct (t u : List Char) : Prop where
  isComment : isComment u = isComment t
  opensBlock : blockAfter false u = blockAfter false t
  startsSyntax : startsWith "syntax".toList u = startsWith "syntax".toList t
  startsSpaced : ∀ word ∈ spacedWords,
    startsWith (word.toList ++ [' ']) u = startsWith (word.toList ++ [' ']) t
  declared : ∀ keyword ∈ ["message", "enum"], declaredName? keyword u = declaredName? keyword t
  value : (assignment? u).map Prod.fst = (assignment? t).map Prod.fst
  code : Line.isComment t = false → Line.code u = Line.code t

theorem Indistinct.refl (t : List Char) : Indistinct t t :=
  ⟨rfl, rfl, rfl, fun _ _ => rfl, fun _ _ => rfl, rfl, fun _ => rfl⟩

theorem firstWord_of_mark {mark : String} (hm : mark ∈ ["//", "/*", "*"]) {t : List Char}
    (h : startsWith mark.toList t) : firstWord t = [] := by
  obtain ⟨r, rfl⟩ := startsWith_iff.1 h
  simp only [List.mem_cons, List.not_mem_nil, or_false] at hm
  rcases hm with rfl | rfl | rfl <;> rfl

theorem indistinct_of_comment {mark : String} (hm : mark ∈ ["//", "/*", "*"]) {t u : List Char}
    (ht : startsWith mark.toList t) (hu : startsWith mark.toList u)
    (hclose : closesBlock u = closesBlock t) : Indistinct t u := by
  have hmark : ∀ {v}, startsWith mark.toList v → Line.isComment v ∧
      opensBlock v = decide (mark = "/*") := by
    intro v hv
    obtain ⟨r, rfl⟩ := startsWith_iff.1 hv
    simp only [List.mem_cons, List.not_mem_nil, or_false] at hm
    rcases hm with rfl | rfl | rfl <;> exact ⟨rfl, rfl⟩
  obtain ⟨htc, hto⟩ := hmark ht
  obtain ⟨huc, huo⟩ := hmark hu
  have htw := firstWord_of_mark hm ht
  have huw := firstWord_of_mark hm hu
  have hword : ∀ keyword ∈ ["message", "enum"], ∀ {v}, firstWord v = [] →
      declaredName? keyword v = none := by
    have hkeyword : ∀ keyword ∈ ["message", "enum"], (∀ c ∈ keyword.toList, isWord c) ∧
        keyword.toList ≠ [] := by decide
    intro keyword hk v hv
    obtain ⟨hkw, hkn⟩ := hkeyword keyword hk
    exact declaredName?_eq_none hkw (by rwa [hv])
  refine ⟨by rw [htc, huc], by rw [blockAfter, blockAfter, hto, huo, hclose], ?_, fun word hw => ?_,
    fun keyword hk => by rw [hword keyword hk htw, hword keyword hk huw], ?_, fun h => ?_⟩
  · rw [startsWith_of_no_word htw (by decide), startsWith_of_no_word huw (by decide)]
  · have hstart : ∀ word ∈ spacedWords, (word.toList ++ [' ']).head?.any isWord := by decide
    rw [startsWith_of_no_word htw (hstart word hw), startsWith_of_no_word huw (hstart word hw)]
  · rw [assignment?_of_no_word htw, assignment?_of_no_word huw]
  · rw [htc] at h
    cases h

theorem startsWith_beforeRemark {k : List Char} (hk : '/' ∉ k) (t : List Char) :
    startsWith k (beforeRemark t) = startsWith k t := by
  rw [Bool.eq_iff_iff, startsWith_iff, startsWith_iff]
  refine ⟨fun h => h.trans (beforeRemark_isPrefix t), fun h => ?_⟩
  rcases List.prefix_or_prefix_of_prefix h (beforeRemark_isPrefix t) with hk | ⟨d, rfl⟩
  · exact hk
  cases d with
  | nil => exact ⟨[], by rw [List.append_nil, List.append_nil]⟩
  | cons c d =>
      -- the text would go on in the remark, so with a slash
      obtain ⟨e, he⟩ := h
      have hrest : remark t = c :: d ++ e := by
        refine (List.append_right_inj (beforeRemark t)).1 ?_
        rw [beforeRemark_append_remark, ← List.append_assoc, he]
      have hstart : startsWith "//".toList (remark t) :=
        startsWith_remark (by rw [hrest]; exact List.cons_ne_nil c _)
      rw [hrest, List.cons_append, startsWith_slashes] at hstart
      exact absurd (List.mem_append_right _ (hstart.1 ▸ List.mem_cons_self)) hk

theorem trailed_code {t : List Char} (ht : trim t = t) (hnl : '\n' ∉ t) (hr : remark t ≠ []) :
    Trailed (code t) t := by
  have hparts := beforeRemark_append_remark t
  have hsolid : StartsSolid (beforeRemark t) := fun c hc => by
    have hhead := List.mem_head?_append_of_mem_head? (t := remark t) hc
    rw [hparts] at hhead
    exact (trim_eq_self_iff.1 ht).1 c hhead
  obtain ⟨g, hg, he⟩ := exists_trimEnd (beforeRemark t)
  obtain ⟨r, hslashes⟩ := startsWith_iff.1 (startsWith_remark hr)
  have hcode : code t = trimEnd (beforeRemark t) := by
    rw [Layout.code_eq hnl, trim, hsolid.trimStart]
  have hline : code t ++ (g ++ '/' :: '/' :: r) = t := by
    rw [hcode, ← List.append_assoc, ← he]
    exact (congrArg (beforeRemark t ++ ·) hslashes).trans hparts
  have htrail := Trailed.append (code t) hg ('/' :: r)
  rwa [hline] at htrail

theorem indistinct_of_code {t u : List Char} (htrail : Trailed (code t) t)
    (hutrail : Trailed (code t) u) (htc : isComment t = false) (huc : isComment u = false)
    (hcode : code u = code t)
    (hspace : ∀ word ∈ spacedWords, code t = word.toList → beforeRemark u = beforeRemark t) :
    Indistinct t u := by
  have hspaced : ∀ word ∈ spacedWords, EndsSolid word.toList ∧ '/' ∉ word.toList ++ [' '] := by
    decide
  have hdeclared : ∀ keyword ∈ ["message", "enum"], ∀ c ∈ keyword.toList, isWord c := by decide
  refine ⟨by rw [htc, huc], ?_, ?_, fun word hw => ?_, fun keyword hk => ?_, ?_, fun _ => hcode⟩
  · rw [blockAfter_of_not_isComment htc, blockAfter_of_not_isComment huc]
  · rw [htrail.startsWith (by decide), hutrail.startsWith (by decide)]
  · obtain ⟨hends, hslash⟩ := hspaced word hw
    by_cases hc : code t = word.toList
    · rw [← startsWith_beforeRemark hslash u, hspace word hw hc, startsWith_beforeRemark hslash]
    · have hslash' : '/' ∉ word.toList := fun h => hslash (List.mem_append_left _ h)
      rw [htrail.startsWith_spaced hends hslash' hc, hutrail.startsWith_spaced hends hslash' hc]
  · rw [htrail.declaredName? (hdeclared keyword hk), hutrail.declaredName? (hdeclared keyword hk)]
  · have hvalue : ∀ {v}, Trailed (code t) v →
        (assignment? v).map Prod.fst = (assignment? (code t)).map Prod.fst := fun h =>
      (equalOption_of_rel (rel_map h.assignment? fun _ _ hr => hr.1)).symm
    rw [hvalue htrail, hvalue hutrail]

def Import.wordless (i : Import) : Import :=
  { i with text := [] }

/-- The same state, but for the texts of the imports, which no rule reads. -/
structure Alike (s t : State) : Prop where
  imports : t.imports.map Import.wordless = s.imports.map Import.wordless
  rest : t = { s with imports := t.imports }

theorem Alike.refl (s : State) : Alike s s := ⟨rfl, rfl⟩

def State.importing (is : List Import) (s : State) : State :=
  { s with imports := is }

/-- A reader that neither looks at the imports nor changes them. -/
def IgnoresImports (reader : State → State × List Finding) : Prop :=
  ∀ is s, reader (s.importing is) = ((reader s).1.importing is, (reader s).2) ∧
    (reader s).1.imports = s.imports

theorem ignoresImports_run {α : Type} {reader : State → α → State × List Finding}
    (h : ∀ x, IgnoresImports fun s => reader s x) (xs : List α) :
    IgnoresImports fun s => Pass.run reader s xs := by
  intro is s
  induction xs generalizing s with
  | nil => exact ⟨rfl, rfl⟩
  | cons x xs ih =>
      obtain ⟨hstep, hkept⟩ := h x is s
      obtain ⟨hrun, hkept'⟩ := ih (reader s x).1
      dsimp only at hstep hkept hrun hkept' ⊢
      rw [Pass.run_cons, Pass.run_cons, hstep, hrun]
      exact ⟨rfl, hkept'.trans hkept⟩

theorem ignoresImports_collect (n : Nat) (text : List Char) :
    IgnoresImports fun s => State.collect n s text := by
  intro is s
  obtain ⟨syntaxLine, packageLine, imports, afterComment, depth, service, openEnum, inComment,
    overlong⟩ := s
  unfold State.collect
  cases openEnum with
  | none => exact ⟨rfl, rfl⟩
  | some e =>
      cases assignment? text with
      | none => exact ⟨rfl, rfl⟩
      | some r => exact ⟨rfl, rfl⟩

theorem ignoresImports_readEnum (n : Nat) (text : List Char) :
    IgnoresImports fun s => s.readEnum n text := by
  intro is s
  unfold State.readEnum
  cases declaredName? "enum" text with
  | none => exact ignoresImports_collect n text is s
  | some name =>
      have hcollect : ∀ texts : List (List Char),
          IgnoresImports fun t => Pass.run (State.collect n) t texts :=
        ignoresImports_run (ignoresImports_collect n)
      unfold State.openEnumAt
      obtain ⟨hrun, hkept⟩ :=
        hcollect _ is { s with openEnum := some { name, line := n, depth := s.depth } }
      refine ⟨?_, hkept⟩
      exact congrArg (fun outcome => (outcome.1, nameFindings isPascalCase .enumName n name ++
        outcome.2)) hrun

theorem ignoresImports_readService (n : Nat) (text : List Char) :
    IgnoresImports fun s => s.readService n text := by
  intro is s
  unfold State.readService
  dsimp only [State.importing]
  split
  · exact ⟨rfl, rfl⟩
  · split <;> exact ⟨rfl, rfl⟩

theorem ignoresImports_brace (c : Char) : IgnoresImports fun s => s.brace c := by
  intro is s
  obtain ⟨syntaxLine, packageLine, imports, afterComment, depth, service, openEnum, inComment,
    overlong⟩ := s
  unfold State.brace
  dsimp only [State.importing]
  split
  · exact ⟨rfl, rfl⟩
  · split
    · cases openEnum with
      | none => exact ⟨rfl, rfl⟩
      | some e => dsimp only; split <;> exact ⟨rfl, rfl⟩
    · exact ⟨rfl, rfl⟩

theorem ignoresImports_readBraces (text : List Char) :
    IgnoresImports fun s => s.readBraces text := by
  intro is s
  unfold State.readBraces
  split
  · exact ⟨rfl, rfl⟩
  · exact ignoresImports_run ignoresImports_brace (code text) is s

/-- Such a reader finds the same in states that are alike, and leaves them alike. -/
theorem IgnoresImports.alike {reader : State → State × List Finding} (h : IgnoresImports reader)
    {s t : State} (ha : Alike s t) :
    Alike (reader s).1 (reader t).1 ∧ (reader t).2 = (reader s).2 := by
  obtain ⟨hrun, hkept⟩ := h t.imports s
  have ht : t = s.importing t.imports := ha.rest
  rw [← ht] at hrun
  rw [hrun]
  refine ⟨⟨?_, rfl⟩, rfl⟩
  rw [hkept]
  exact ha.imports

section
variable {t u : List Char} (h : Indistinct t u) (s : State) (n : Nat)
include h

theorem Indistinct.collect : State.collect n s u = State.collect n s t := by
  have hvalue := h.value
  unfold State.collect
  cases s.openEnum with
  | none => rfl
  | some e =>
      generalize assignment? t = a at hvalue
      generalize assignment? u = b at hvalue
      cases a with
      | none => rw [Option.map_eq_none_iff.1 hvalue]
      | some a =>
          obtain ⟨b, rfl, hb⟩ := Option.map_eq_some_iff.1 hvalue
          dsimp only
          rw [hb]

theorem Indistinct.readEnum : s.readEnum n u = s.readEnum n t := by
  unfold State.readEnum
  rw [h.declared "enum" (by decide)]
  cases ht : declaredName? "enum" t with
  | none => exact h.collect s n
  | some name =>
      -- a text that declares an enum starts with a word, so it is no comment
      have hword : firstWord t ≠ [] := by
        intro hnil
        rw [declaredName?_eq_none (by decide) (by rw [hnil]; decide)] at ht
        cases ht
      dsimp only
      rw [State.openEnumAt, State.openEnumAt, h.code (isComment_of_firstWord hword)]

theorem Indistinct.message : messageFindings n u = messageFindings n t := by
  rw [messageFindings, messageFindings, h.declared "message" (by decide)]

theorem Indistinct.readService : s.readService n u = s.readService n t := by
  have hservice : startsWith "service ".toList u = startsWith "service ".toList t :=
    h.startsSpaced "service" (by decide)
  have hrpc : startsWith "rpc ".toList u = startsWith "rpc ".toList t :=
    h.startsSpaced "rpc" (by decide)
  rw [State.readService, State.readService, hservice, hrpc]

theorem Indistinct.readBraces : s.readBraces u = s.readBraces t := by
  rw [State.readBraces, State.readBraces, h.isComment]
  cases hc : Line.isComment t with
  | true => rfl
  | false => rw [h.code hc]

theorem Indistinct.noteHeader {s' : State} (ha : Alike s s') :
    Alike (s.noteHeader n t) (s'.noteHeader n u) := by
  have hpackage : startsWith "package ".toList u = startsWith "package ".toList t :=
    h.startsSpaced "package" (by decide)
  have himport : startsWith "import ".toList u = startsWith "import ".toList t :=
    h.startsSpaced "import" (by decide)
  have hpublic : startsWith "import public ".toList u = startsWith "import public ".toList t :=
    h.startsSpaced "import public" (by decide)
  rw [State.noteHeader, State.noteHeader, h.startsSyntax, hpackage, himport, hpublic]
  have hsyntaxLine : s'.syntaxLine = s.syntaxLine := by rw [ha.rest]
  have hpackageLine : s'.packageLine = s.packageLine := by rw [ha.rest]
  refine ⟨?_, ?_⟩
  · dsimp only
    split
    · rw [List.map_append, List.map_append, ha.imports]
      rfl
    · exact ha.imports
  · rw [hsyntaxLine, hpackageLine]
    conv_lhs => rw [ha.rest]

end

/-- Lines that the pass cannot tell apart lead to states that are alike, and to the findings that
the reader of fields does not make differ. -/
theorem step_alike {s s' : State} (ha : Alike s s') (hs : s.inComment = false) {l k : List Char}
    (h : Indistinct (trim l) (trim k)) {skipped : List Nat} {n : Nat}
    (hfield : ∀ t : State, judged skipped (t.fieldFindings n (trim k)) =
      judged skipped (t.fieldFindings n (trim l))) :
    Alike (step s (l, n)).1 (step s' (k, n)).1 ∧
      judged skipped (step s' (k, n)).2 = judged skipped (step s (l, n)).2 := by
  have hs' : s'.inComment = false := by
    rw [ha.rest]
    exact hs
  have hopened : Alike { s with inComment := blockAfter false (trim l) }
      { s' with inComment := blockAfter false (trim k) } := by
    refine ⟨ha.imports, ?_⟩
    rw [h.opensBlock]
    conv_lhs => rw [ha.rest]
  have hnote := h.noteHeader _ n hopened
  obtain ⟨henum, hvalues⟩ := (ignoresImports_readEnum n (trim l)).alike hnote
  obtain ⟨hservice, hwanting⟩ := (ignoresImports_readService n (trim l)).alike henum
  obtain ⟨hbraces, hfirst⟩ := (ignoresImports_readBraces (trim l)).alike hservice
  have hopen : ∀ {t t' : State}, Alike t t' → t'.fieldFindings n (trim k) =
      t.fieldFindings n (trim k) := by
    intro t t' ht
    rw [ht.rest]
    rfl
  simp only [step, hs, hs', Bool.false_eq_true, if_false, h.readEnum, h.readService, h.readBraces,
    h.message, h.isComment, judged_append, judged_length, hvalues, hwanting, hfirst,
    hopen henum, hfield]
  refine ⟨⟨hbraces.imports, ?_⟩, trivial⟩
  conv_lhs => rw [hbraces.rest]

/-- Findings on names of fields at a line that is skipped do not count. -/
theorem judged_field {skipped : List Nat} {n : Nat} (h : n ∈ skipped) (s : State)
    (text : List Char) : judged skipped (s.fieldFindings n text) = [] := by
  unfold State.fieldFindings
  split
  · unfold nameFindings
    split
    · rfl
    · simp [judged, h, Cause.rule]
  · rfl

theorem step_inside {s : State} (hs : s.inComment = true) (l : List Char) (n : Nat) :
    step s (l, n) =
      ({ s with inComment := !closesBlock (trim l), afterComment := true },
        lengthFindings n l) := by
  rw [step, hs, blockAfter_true]
  rfl

theorem step_alike_inside {s s' : State} (ha : Alike s s') (hs : s.inComment = true)
    {l k : List Char} (h : closesBlock (trim k) = closesBlock (trim l)) (skipped : List Nat)
    (n : Nat) :
    Alike (step s (l, n)).1 (step s' (k, n)).1 ∧
      judged skipped (step s' (k, n)).2 = judged skipped (step s (l, n)).2 := by
  have hs' : s'.inComment = true := by
    rw [ha.rest]
    exact hs
  rw [step_inside hs, step_inside hs', h, judged_length, judged_length]
  refine ⟨⟨ha.imports, ?_⟩, rfl⟩
  conv_lhs => rw [ha.rest]

/-- The reader of fields stops where the code ends, or the line is one of those that leave a map
type open. -/
theorem judged_field_code {t u : List Char} (ht : Trailed (code t) t) (hu : Trailed (code t) u)
    {skipped : List Nat} {n : Nat} (hskip : t ≠ u → leavesMapOpen (code t) → n ∈ skipped)
    (s : State) : judged skipped (s.fieldFindings n u) = judged skipped (s.fieldFindings n t) := by
  by_cases htu : t = u
  · rw [htu]
  cases hopen : leavesMapOpen (code t) with
  | true =>
      have hn := hskip htu hopen
      rw [judged_field hn, judged_field hn]
  | false =>
      have hname : fieldName? u = fieldName? t := by
        rw [ht.fieldName? hopen, hu.fieldName? hopen]
      rw [State.fieldFindings, State.fieldFindings, hname]

theorem step_retells {s s' : State} (ha : Alike s s') {l k : List Char}
    (h : Retells s.inComment l k) (hl : '\n' ∉ l) (hk : '\n' ∉ k) {skipped : List Nat} {n : Nat}
    (hskip : l ≠ k → leavesMapOpen (codeOf s.inComment l) → n ∈ skipped) :
    Alike (step s (l, n)).1 (step s' (k, n)).1 ∧
      judged skipped (step s' (k, n)).2 = judged skipped (step s (l, n)).2 := by
  generalize hs : s.inComment = inComment at h hskip
  cases h with
  | same =>
      cases inComment with
      | true => exact step_alike_inside ha hs rfl skipped n
      | false => exact step_alike ha hs (.refl _) fun _ => rfl
  | inside hclose => exact step_alike_inside ha hs hclose skipped n
  | comment hm hlm hkm hclose =>
      have hnone : ∀ {v}, startsWith _ v → ∀ t : State, t.fieldFindings n v = [] := fun hv t =>
        fieldFindings_of_none t n (fieldName?_of_no_word (firstWord_of_mark hm hv))
      refine step_alike ha hs (indistinct_of_comment hm hlm hkm hclose) fun t => ?_
      rw [hnone hlm, hnone hkm]
  | remark hlc hkc hlr hkr hcode hspace =>
      have hln : '\n' ∉ trim l := fun hm => hl (mem_of_mem_trim hm)
      have hkn : '\n' ∉ trim k := fun hm => hk (mem_of_mem_trim hm)
      have hlt := trailed_code (trim_trim l) hln hlr
      have hkt := trailed_code (trim_trim k) hkn hkr
      rw [hcode] at hkt
      rw [codeOf_code hlc] at hskip
      refine step_alike ha hs (indistinct_of_code hlt hkt hlc hkc hcode hspace) ?_
      exact judged_field_code hlt hkt fun hne hopen => hskip (fun he => hne (by rw [he])) hopen

theorem scan_retold {inComment : Bool} {ls ks : List (List Char)} (h : Retold inComment ls ks)
    (hls : ∀ l ∈ ls, '\n' ∉ l) (hks : ∀ k ∈ ks, '\n' ∉ k) {skipped : List Nat} {n : Nat}
    (hskip : ∀ m ∈ openLines inComment n ls ks, m ∈ skipped) {s s' : State} (ha : Alike s s')
    (hs : s.inComment = inComment) :
    Alike (scan s (ls.zipIdx n)).1 (scan s' (ks.zipIdx n)).1 ∧
      judged skipped (scan s' (ks.zipIdx n)).2 = judged skipped (scan s (ls.zipIdx n)).2 := by
  induction h generalizing n s s' with
  | nil => exact ⟨ha, rfl⟩
  | @cons inComment l k ls ks hline _ ih =>
      obtain ⟨hl, hls⟩ := List.forall_mem_cons.1 hls
      obtain ⟨hk, hks⟩ := List.forall_mem_cons.1 hks
      rw [openLines, List.forall_mem_append] at hskip
      obtain ⟨hfirst, hrest⟩ := hskip
      subst hs
      have hskip : l ≠ k → leavesMapOpen (codeOf s.inComment l) → n ∈ skipped :=
        fun hne hopen => hfirst n (by simp [hne, hopen])
      obtain ⟨hstep, hfound⟩ := step_retells ha hline hl hk hskip
      obtain ⟨hscan, hfound'⟩ := ih hls hks hrest hstep (step_place s l n).2
      rw [scan_cons, scan_cons]
      exact ⟨hscan, by rw [judged_append, judged_append, hfound, hfound']⟩

theorem Retold.length_eq {inComment : Bool} {ls ks : List (List Char)}
    (h : Retold inComment ls ks) : ks.length = ls.length := by
  induction h with
  | nil => rfl
  | cons _ _ ih => rw [List.length_cons, List.length_cons, ih]

theorem Retells.eq_nil_iff {l k : List Char} (h : Retells false l k) : k = [] ↔ l = [] := by
  cases h with
  | same => rfl
  | @comment mark l k hm hl hk =>
      have hne : ∀ {v}, startsWith mark.toList (trim v) → v ≠ [] := by
        rintro v hv rfl
        simp only [List.mem_cons, List.not_mem_nil, or_false] at hm
        rcases hm with rfl | rfl | rfl <;> cases hv
      exact iff_of_false (hne hk) (hne hl)
  | remark _ _ hl hk =>
      exact iff_of_false (fun he => hk (by rw [he]; rfl)) fun he => hl (by rw [he]; rfl)

theorem lines_eq_iff {content : List Char} : Source.lines content = [[]] ↔ content = [] := by
  constructor
  · intro h
    have hjoin : ['\n'].intercalate (content.splitOn '\n') = content := List.intercalate_splitOn ..
    rw [← Source.lines, h] at hjoin
    exact hjoin.symm
  · rintro rfl
    rfl

theorem newlineFindings_retold {content content' : List Char}
    (h : Retold false (Source.lines content) (Source.lines content'))
    (hend : content.getLast? = some '\n' ↔ content'.getLast? = some '\n') :
    newlineFindings content' (Source.lines content').length =
      newlineFindings content (Source.lines content).length := by
  have hempty : content' = [] ↔ content = [] := by
    rw [← lines_eq_iff, ← lines_eq_iff]
    generalize Source.lines content = ls at h
    generalize Source.lines content' = ks at h
    cases h with
    | nil => rfl
    | @cons _ l k ls ks hline hrest =>
        have hnil : ks = [] ↔ ls = [] := by
          rw [← List.length_eq_zero_iff, hrest.length_eq, List.length_eq_zero_iff]
        rw [List.cons_eq_cons, List.cons_eq_cons, hline.eq_nil_iff, hnil]
  rw [newlineFindings, newlineFindings, h.length_eq]
  simp only [ne_eq, hempty, hend]

theorem Alike.headerFindings {s t : State} (h : Alike s t) :
    t.headerFindings = s.headerFindings := by
  rw [h.rest]
  rfl

theorem importFindings_wordless (s : State) :
    (s.importing (s.imports.map Import.wordless)).importFindings = s.importFindings := by
  rw [← List.map_id s.importFindings]
  exact congrArg Prod.snd (Pass.run_map (f := id) (g := Import.wordless) (h := id)
    (fun _ _ => by rw [List.map_id]; rfl) false s.imports)

theorem Alike.importFindings {s t : State} (h : Alike s t) :
    t.importFindings = s.importFindings := by
  rw [← importFindings_wordless t, ← importFindings_wordless s, h.imports]
  rfl

/-- Sources that differ in their comments alone have the same findings, but for long lines and the
names of fields at lines that leave a map type open; without such lines they have the same findings
but for long lines. -/
theorem check_retold {content content' : List Char}
    (h : Retold false (Source.lines content) (Source.lines content'))
    (hend : content.getLast? = some '\n' ↔ content'.getLast? = some '\n') :
    let skipped := openLines false 1 (Source.lines content) (Source.lines content')
    (check content' (Source.lines content')).map (judged skipped) =
        (check content (Source.lines content)).map (judged skipped) ∧
      (skipped = [] →
        (check content' (Source.lines content')).map
            (List.filter fun f => f.cause.rule ≠ .maxLineLength) =
          (check content (Source.lines content)).map
            (List.filter fun f => f.cause.rule ≠ .maxLineLength)) := by
  intro skipped
  have hjudged : (check content' (Source.lines content')).map (judged skipped) =
      (check content (Source.lines content)).map (judged skipped) := by
    have hskip : ∀ m ∈ openLines false 1 (Source.lines content) (Source.lines content'),
        m ∈ skipped := fun _ hm => hm
    obtain ⟨hstate, hfound⟩ := scan_retold h (fun _ => Layout.no_newline_of_mem_lines)
      (fun _ => Layout.no_newline_of_mem_lines) hskip (.refl {}) rfl
    have hoverlong : (scan {} ((Source.lines content').zipIdx 1)).1.overlong =
        (scan {} ((Source.lines content).zipIdx 1)).1.overlong := by rw [hstate.rest]
    rw [check, check]
    dsimp only
    rw [hoverlong]
    split
    · rfl
    · simp only [Except.map, judged_append, newlineFindings_retold h hend, hfound,
        hstate.headerFindings, hstate.importFindings]
  refine ⟨hjudged, fun hnone => ?_⟩
  have hfilter : judged skipped = List.filter fun f => f.cause.rule ≠ .maxLineLength := by
    funext fs
    rw [hnone]
    refine List.filter_congr fun f _ => ?_
    simp
  rwa [hfilter] at hjudged

/-- Other words in a comment of its own, behind a map type left open and behind a heading. -/
theorem check_retold_words :
    let content := "// a\nmap<k, // > Old = 1\nmessage m \x7b // b\n".toList
    let content' := "// c\nmap<k, // value\nmessage m \x7b //\n".toList
    (Retold false (Source.lines content) (Source.lines content') ∧
        (content.getLast? = some '\n' ↔ content'.getLast? = some '\n')) ∧
      openLines false 1 (Source.lines content) (Source.lines content') = [2] ∧
      (check content' (Source.lines content')).map (judged [2]) =
        (check content (Source.lines content)).map (judged [2]) := by
  intro content content'
  have hlines : Source.lines content =
      ["// a".toList, "map<k, // > Old = 1".toList, "message m \x7b // b".toList, []] := by decide
  have hlines' : Source.lines content' =
      ["// c".toList, "map<k, // value".toList, "message m \x7b //".toList, []] := by decide
  have hretold : Retold false (Source.lines content) (Source.lines content') := by
    rw [hlines, hlines']
    have hcomment : Retells false "// a".toList "// c".toList :=
      .comment (show "//" ∈ ["//", "/*", "*"] by decide) (by decide) (by decide) (by decide)
    have hmap : Retells false "map<k, // > Old = 1".toList "map<k, // value".toList :=
      .remark (by decide) (by decide) (by decide) (by decide) (by decide) (by decide)
    have hmessage : Retells false "message m \x7b // b".toList "message m \x7b //".toList :=
      .remark (by decide) (by decide) (by decide) (by decide) (by decide) (by decide)
    exact .cons hcomment <| .cons hmap <| .cons hmessage <| .cons (.same _ _) (.nil _)
  have hend : content.getLast? = some '\n' ↔ content'.getLast? = some '\n' := by decide
  have hopen : openLines false 1 (Source.lines content) (Source.lines content') = [2] := by decide
  have hjudged := (check_retold hretold hend).1
  rw [hopen] at hjudged
  exact ⟨⟨hretold, hend⟩, hopen, hjudged⟩

/-- A comment behind a map type left open can end the type and name a field. -/
theorem check_retold_differs :
    ¬ ∀ content content' : List Char,
      Retold false (Source.lines content) (Source.lines content') →
      (content.getLast? = some '\n' ↔ content'.getLast? = some '\n') →
      (check content' (Source.lines content')).map
          (List.filter fun f => f.cause.rule ≠ .maxLineLength) =
        (check content (Source.lines content)).map
          (List.filter fun f => f.cause.rule ≠ .maxLineLength) := by
  intro h
  have hlines : Source.lines "message A \x7b\n  map<string, // > Old = 1\n\x7d\n".toList =
      ["message A \x7b".toList, "  map<string, // > Old = 1".toList, "\x7d".toList, []] := by decide
  have hlines' : Source.lines "message A \x7b\n  map<string, // key\n\x7d\n".toList =
      ["message A \x7b".toList, "  map<string, // key".toList, "\x7d".toList, []] := by decide
  have hmap : Retells false "  map<string, // > Old = 1".toList "  map<string, // key".toList :=
    .remark (by decide) (by decide) (by decide) (by decide) (by decide) (by decide)
  have hretold : Retold false
      ["message A \x7b".toList, "  map<string, // > Old = 1".toList, "\x7d".toList, []]
      ["message A \x7b".toList, "  map<string, // key".toList, "\x7d".toList, []] :=
    .cons (.same _ _) <| .cons hmap <| .cons (.same _ _) <| .cons (.same _ _) (.nil _)
  have hsame := h "message A \x7b\n  map<string, // > Old = 1\n\x7d\n".toList
    "message A \x7b\n  map<string, // key\n\x7d\n".toList
    (by rw [hlines, hlines']; exact hretold) (by decide)
  rw [hlines, hlines'] at hsame
  have hfound : check "message A \x7b\n  map<string, // > Old = 1\n\x7d\n".toList
      ["message A \x7b".toList, "  map<string, // > Old = 1".toList, "\x7d".toList, []] =
      .ok [{ line := 2, cause := .fieldName "Old".toList }, { line := 1, cause := .noSyntax },
        { line := 1, cause := .noPackage }] := by rfl
  have hfound' : check "message A \x7b\n  map<string, // key\n\x7d\n".toList
      ["message A \x7b".toList, "  map<string, // key".toList, "\x7d".toList, []] =
      .ok [{ line := 1, cause := .noSyntax }, { line := 1, cause := .noPackage }] := by rfl
  rw [hfound, hfound'] at hsame
  revert hsame
  decide

end SchemaLint.Style
