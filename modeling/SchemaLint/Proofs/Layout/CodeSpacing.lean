import SchemaLint.Proofs.Layout.Rereading
import SchemaLint.Proofs.Line.CompactShapes

/-! The code of a line under its normal spacing. The code has the compact form it had, so what the
compact form decides is as before; what asks for a blank after a keyword is as before because
normal spacing keeps one there. -/

namespace SchemaLint.Layout
open SchemaLint.Text SchemaLint.Line

theorem beforeComment_eq {s : List Char} (h : '\n' ∉ s) : beforeComment s = beforeRemark s := by
  induction s with
  | nil => rfl
  | cons c s ih =>
      obtain ⟨-, hs⟩ := not_or.1 (mt List.mem_cons.2 h)
      have hend : s.dropWhile (· != '\n') = [] := List.dropWhile_eq_nil_iff.2 fun d hd => by
        rw [bne_iff_ne]
        rintro rfl
        exact hs hd
      rw [beforeComment, beforeRemark, hend, ih hs, show atEnd [] = true from rfl, Bool.and_true]

theorem code_eq {s : List Char} (h : '\n' ∉ s) : code s = trim (beforeRemark s) := by
  rw [code, beforeComment_eq h]

theorem trim_append_right {s k : List Char} (h : Blank k) : trim (s ++ k) = trim s := by
  rw [trim, ← trimStart_trimEnd, trimEnd_append h, trimStart_trimEnd, trim]

theorem trim_isPrefix {s : List Char} (h : StartsSolid s) : trim s <+: s := by
  rw [trim, h.trimStart]
  exact trimEnd_isPrefix s

theorem code_isPrefix {t : List Char} (h : StartsSolid t) : code t <+: t := by
  have hp := beforeComment_isPrefix t
  refine (trim_isPrefix ?_).trans hp
  intro c hc
  obtain ⟨k, hk⟩ := hp
  exact h c (hk ▸ List.mem_head?_append_of_mem_head? hc)

theorem code_trim {s : List Char} (h : '\n' ∉ s) : code (trim s) = code s := by
  obtain ⟨⟨g, k, hg, hk, he⟩, -⟩ := remark_trim s
  rw [code_eq h, code_eq fun hm => h (mem_of_mem_trim hm), he, trim_append_right hk,
    trim_append_left hg]

theorem code_spaced {t : List Char} (h : '\n' ∉ t) : code (spaced t) = code (readLine t).2 :=
  code_trim ((respaced_readLine t).no_newline h)

theorem compact_code_spaced {t : List Char} (h : '\n' ∉ t) :
    compact (code (spaced t)) = compact (code t) := by
  rw [code_spaced h, code_eq h, code_eq ((respaced_readLine t).no_newline h), ← trim_compact,
    ← trim_compact, (respaced_readLine t).remark.1.compact]

theorem head?_code {t : List Char} {c : Char} (hc : t.head? = some c) (hw : isWord c) :
    (code t).head? = some c := by
  obtain ⟨s, rfl⟩ := List.head?_eq_some_iff.1 hc
  have hslash : ¬ startsWith "//".toList (c :: s) := by
    rw [startsWith_slashes]
    rintro ⟨rfl, -⟩
    exact absurd hw (by decide)
  refine head?_trim ?_ hw
  rw [beforeComment, eq_false_of_ne_true hslash, Bool.false_and, if_neg Bool.false_ne_true]
  rfl

/-- A line stays as it is, or its code starts with a word and still does. -/
theorem spaced_cases {t : List Char} (h : trim t = t) :
    spaced t = t ∨ StartsWord t ∧ StartsWord (code t) ∧ StartsWord (code (spaced t)) := by
  rcases spaced_head h with hs | ⟨c, hc, ht, hw⟩
  · exact .inl hs
  · exact .inr ⟨⟨c, hc, hw⟩, ⟨c, head?_code hc hw, hw⟩, ⟨c, head?_code ht hw, hw⟩⟩

/-- The code of a line that a keyword leads is the keyword, or goes on with white space. -/
theorem code_keyword {keyword t : List Char} {b : Char} (hkn : keyword ≠ [])
    (hk : ∀ c ∈ keyword, isWord c) (hb : isBlank b) (hnl : '\n' ∉ keyword ++ b :: t) :
    code (keyword ++ b :: t) = keyword ∨
      ∃ u, code (keyword ++ b :: t) = keyword ++ b :: u := by
  have hslash : '/' ∉ keyword := fun h => absurd (hk _ h) (by decide)
  have hblank : Blank [b] := blank_cons.2 ⟨hb, .nil⟩
  have hsolid := solid_of_forall fun c hc => isBlank_of_isWord (hk c hc)
  have hbefore : beforeRemark (keyword ++ b :: t) = keyword ++ ([b] ++ beforeRemark t) := by
    rw [(remark_append_of_no_slash hslash _).2]
    exact congrArg _ (remark_append_of_no_slash (no_slash_of_blank hblank) t).2
  have hcode : code (keyword ++ b :: t) = keyword ++ trimEnd ([b] ++ beforeRemark t) := by
    rw [code_eq hnl, hbefore, trim, StartsSolid.trimStart ((startsSolid_append hkn).2 hsolid.1),
      trimEnd_append_of_solid hsolid.2]
  by_cases hr : Blank (beforeRemark t)
  · exact .inl (by rw [hcode, trimEnd_eq_nil_iff.2 (blank_append.2 ⟨hblank, hr⟩),
      List.append_nil])
  · exact .inr ⟨trimEnd (beforeRemark t), by rw [hcode, trimEnd_append_of_not_blank [b] hr]; rfl⟩

/-- Code that goes on after a keyword still does when the line is respaced with a blank there. -/
theorem code_keyword_of_respaced {keyword t u v : List Char} {b : Char} (hkn : keyword ≠ [])
    (hk : ∀ c ∈ keyword, isWord c) (hb : isBlank b) (hnl : '\n' ∉ t)
    (ht : code t = keyword ++ u) (hu : u ≠ []) (he : (readLine t).2 = keyword ++ b :: v) :
    ∃ w, code (spaced t) = keyword ++ b :: w := by
  have hfirm : ∀ c ∈ keyword, isFirm c := fun c hc => isFirm_of_isWord (hk c hc)
  have hnl' := (respaced_readLine t).no_newline hnl
  rw [code_spaced hnl]
  rw [he] at hnl' ⊢
  refine (code_keyword hkn hk hb hnl').resolve_left fun hcode => hu ?_
  have hcompact := compact_code_spaced hnl
  rw [code_spaced hnl, he, hcode] at hcompact
  rw [eq_of_compact_eq hfirm hcompact.symm] at ht
  exact List.self_eq_append_right.1 ht

/-- Normal spacing leaves one space after the keyword of a block or a statement. -/
theorem readLine_keyword {keyword t : List Char} {b : Char}
    (hk : ∃ k ∈ lineKeywords, k ≠ "rpc" ∧ k.toList = keyword) (hb : isBlank b)
    (ht : trim (keyword ++ b :: t) = keyword ++ b :: t) :
    ∃ u, (readLine (keyword ++ b :: t)).2 = keyword ++ ' ' :: u := by
  obtain ⟨k, hk, hne, rfl⟩ := hk
  obtain ⟨g, hg, hrest⟩ := exists_trimStart t
  obtain ⟨hn, hs⟩ := endsSolid_rest (g := b :: g) ht (List.cons_ne_nil b g)
    (blank_cons.2 ⟨hb, hg⟩) (by rw [List.cons_append, ← hrest])
  simp only [lineKeywords, List.mem_cons, hne, List.mem_append, List.mem_map, false_or] at hk
  rcases hk with hk | ⟨⟨k, category⟩, hk, rfl⟩
  · obtain ⟨rest', -, -, -, he, -⟩ := spaceOpener_eq hk hn (startsSolid_trimStart t) hs
    exact ⟨rest', by rw [readLine_block hk hb, he, spaceKeyword]⟩
  · exact ⟨trimStart t, by rw [readLine_statement hk hb, spaceKeyword]⟩

theorem code_spaced_keyword {k : String} {t u : List Char} {b : Char} (hk : k ∈ lineKeywords)
    (hne : k ≠ "rpc") (hb : isBlank b) (ht : trim t = t) (hnl : '\n' ∉ t)
    (hcode : code t = k.toList ++ b :: u) : ∃ v, code (spaced t) = k.toList ++ ' ' :: v := by
  obtain ⟨hkn, hkw⟩ := word_of_lineKeyword k hk
  obtain ⟨r, hr⟩ := code_isPrefix (trim_eq_self_iff.1 ht).1
  rw [hcode, List.append_assoc, List.cons_append] at hr
  obtain ⟨v, hv⟩ := readLine_keyword ⟨k, hk, hne, rfl⟩ hb (hr ▸ ht)
  rw [hr] at hv
  exact code_keyword_of_respaced hkn hkw (by decide) hnl hcode (List.cons_ne_nil b u) hv

theorem startsWith_code_spaced {k : String} {t : List Char} (hk : k ∈ lineKeywords)
    (hne : k ≠ "rpc") (ht : trim t = t) (hnl : '\n' ∉ t)
    (h : startsWith (k.toList ++ [' ']) (code t)) :
    startsWith (k.toList ++ [' ']) (code (spaced t)) := by
  obtain ⟨u, hu⟩ := startsWith_iff.1 h
  obtain ⟨v, hv⟩ := code_spaced_keyword (b := ' ') hk hne (by decide) ht hnl
    (u := u) (by rw [← hu, List.append_assoc]; rfl)
  exact startsWith_iff.2 ⟨v, by rw [hv, List.append_assoc]; rfl⟩

/-- What follows the equals sign of a syntax declaration. -/
def syntaxRest? (s : List Char) : Option (List Char) :=
  (after? "syntax".toList s).bind afterEquals?

theorem syntaxRest?_compact (s : List Char) :
    syntaxRest? (compact s) = (syntaxRest? s).map compact := by
  have hfirm : ∀ c ∈ "syntax".toList, isFirm c := by decide
  rw [syntaxRest?, syntaxRest?, after?_compact hfirm]
  cases after? "syntax".toList s with
  | none => rfl
  | some r => exact afterEquals?_compact r

theorem syntaxRest?_eq_some_iff {s rest : List Char} :
    syntaxRest? s = some rest ↔ ∃ g h, Blank g ∧ Blank h ∧ StartsSolid rest ∧
      s = "syntax".toList ++ (g ++ '=' :: (h ++ rest)) := by
  rw [syntaxRest?, Option.bind_eq_some_iff]
  constructor
  · rintro ⟨r, hr, he⟩
    obtain ⟨g, h, hg, hh, hs, rfl⟩ := afterEquals?_eq_some_iff.1 he
    exact ⟨g, h, hg, hh, hs, after?_eq_some_iff.1 hr⟩
  · rintro ⟨g, h, hg, hh, hs, rfl⟩
    exact ⟨_, after?_append _ _, afterEquals?_eq_some_iff.2 ⟨g, h, hg, hh, hs, rfl⟩⟩

theorem syntaxRest?_code {g h rest : List Char} (hg : Blank g) (hh : Blank h)
    (hnl : '\n' ∉ "syntax".toList ++ (g ++ '=' :: (h ++ rest))) :
    syntaxRest? (code ("syntax".toList ++ (g ++ '=' :: (h ++ rest)))) =
      some (trim (beforeRemark rest)) := by
  have hslash : '/' ∉ "syntax".toList ++ (g ++ '=' :: h) := by
    simp [no_slash_of_blank hg, no_slash_of_blank hh]
  have hsolid : StartsSolid ("syntax".toList ++ (g ++ ['='])) := by
    exact startsSolid_cons.2 (by decide)
  have hends : EndsSolid ("syntax".toList ++ (g ++ ['='])) := by
    rw [← List.append_assoc]
    exact endsSolid_concat.2 (by decide)
  have hassoc : ∀ r, "syntax".toList ++ (g ++ '=' :: r) =
      "syntax".toList ++ (g ++ ['=']) ++ r := by simp
  have hbefore : beforeRemark ("syntax".toList ++ (g ++ '=' :: (h ++ rest))) =
      "syntax".toList ++ (g ++ ['=']) ++ (h ++ beforeRemark rest) := by
    have := (remark_append_of_no_slash hslash rest).2
    rw [hassoc h] at this
    rw [hassoc, ← List.append_assoc _ h rest, this, List.append_assoc]
  rw [code_eq hnl, hbefore, trim,
    StartsSolid.trimStart ((startsSolid_append (by simp)).2 hsolid),
    trimEnd_append_of_solid hends, ← hassoc, syntaxRest?, after?_append, Option.bind_some,
    afterEquals?, trimStart_append hg]
  change some (trimStart (trimEnd (h ++ beforeRemark rest))) = _
  rw [trimStart_trimEnd, trimStart_append hh, trim]

theorem syntaxValue?_code_spaced {t : List Char} (ht : trim t = t) (hnl : '\n' ∉ t) :
    syntaxValue? (code (spaced t)) = syntaxValue? (code t) := by
  have hrest : syntaxRest? (code (spaced t)) = syntaxRest? (code t) := by
    cases h : syntaxRest? t with
    | some rest =>
        obtain ⟨g, k, hg, hk, hs, rfl⟩ := syntaxRest?_eq_some_iff.1 h
        have hspaced : (readLine ("syntax".toList ++ (g ++ '=' :: (k ++ rest)))).2 =
            "syntax".toList ++ ([' '] ++ '=' :: ([' '] ++ rest)) := by
          rw [readLine_syntaxDecl hg hk hs]
          rfl
        have hnl' := (respaced_readLine _).no_newline hnl
        rw [code_spaced hnl, syntaxRest?_code hg hk hnl]
        rw [hspaced] at hnl' ⊢
        exact syntaxRest?_code (by decide) (by decide) hnl'
    | none =>
        have hcode : syntaxRest? (code t) = none := by
          refine Option.eq_none_iff_forall_ne_some.2 fun r hr => ?_
          obtain ⟨g, k, hg, hk, -, he⟩ := syntaxRest?_eq_some_iff.1 hr
          obtain ⟨z, hz⟩ := code_isPrefix (trim_eq_self_iff.1 ht).1
          obtain ⟨l, hl, hlz⟩ := exists_trimStart (r ++ z)
          have hsome : syntaxRest? t = some (trimStart (r ++ z)) := by
            refine syntaxRest?_eq_some_iff.2 ⟨g, k ++ l, hg, blank_append.2 ⟨hk, hl⟩,
              startsSolid_trimStart _, ?_⟩
            rw [← hz, he, List.append_assoc k l, ← hlz]
            simp
          rw [h] at hsome
          cases hsome
        have hcompact := syntaxRest?_compact (code (spaced t))
        rw [compact_code_spaced hnl, syntaxRest?_compact, hcode, Option.map_none] at hcompact
        rw [hcode, Option.map_eq_none_iff.1 hcompact.symm]
  rw [syntaxRest?, syntaxRest?] at hrest
  simp only [syntaxValue?, hrest]

theorem afterBlanks?_isSome_iff {s : List Char} :
    (afterBlanks? s).isSome ↔ ∃ b t, isBlank b ∧ s = b :: t := by
  cases s with
  | nil => simp [afterBlanks?]
  | cons b t => cases hb : isBlank b <;> simp [afterBlanks?, hb]

theorem exists_keyword_iff {keywords : List String} {s : List Char} :
    (afterKeyword? keywords s).isSome ↔
      ∃ k ∈ keywords, ∃ b t, isBlank b ∧ s = k.toList ++ b :: t := by
  rw [afterKeyword?, List.findSome?_isSome_iff]
  refine exists_congr fun k => and_congr_right fun _ => ?_
  constructor
  · intro h
    obtain ⟨rest, h⟩ := Option.isSome_iff_exists.1 h
    obtain ⟨r, hr, h⟩ := Option.bind_eq_some_iff.1 h
    obtain ⟨b, t, hb, rfl⟩ := afterBlanks?_isSome_iff.1 (Option.isSome_of_eq_some h)
    exact ⟨b, t, hb, after?_eq_some_iff.1 hr⟩
  · rintro ⟨b, t, hb, rfl⟩
    rw [after?_append, Option.bind_some]
    exact afterBlanks?_isSome_iff.2 ⟨b, t, hb, rfl⟩

/-- The word `syntax` is the type of a field that it starts, and a name follows it. -/
theorem exists_blank_of_syntax_field {t u name : List Char} {b : Char} (hb : isBlank b)
    (ht : t = "syntax".toList ++ b :: u) (hword : firstWord t = "syntax".toList)
    (hfield : fieldName? t = some name) :
    ∃ d v, isBlank d ∧ spaceAssignment t = "syntax".toList ++ d :: v := by
  have hlabel : afterLabel? t = none := afterKeyword?_eq_none word_of_fieldLabel (by
    rw [hword]
    decide)
  have htype : afterType? t = some (b :: u) := by
    rw [ht]
    exact afterType?_append (isType_word (by decide) (by decide))
      (endsType_of_blank (g := [b]) (by simp) (blank_cons.2 ⟨hb, .nil⟩) u)
  rw [fieldName?, hlabel, Option.bind_none, Option.none_or, numberedName?, typedName?, htype,
    Option.bind_some, Option.bind_eq_some_iff] at hfield
  obtain ⟨r, hr, -⟩ := hfield
  have hcompact : compact t = compact (spaceAssignment t) :=
    Respaced.compact (show Respaced true _ _ from respaced_spaceAssignment t)
  have hafter := after?_compact (k := "syntax".toList) (by decide) (spaceAssignment t)
  rw [← hcompact, after?_compact (by decide), ht, after?_append, Option.map_some] at hafter
  obtain ⟨v, hv, hvu⟩ := Option.map_eq_some_iff.1 hafter.symm
  have hblanks := afterBlanks?_word?_compact v
  rw [hvu, afterBlanks?_word?_compact, hr, Option.map_some] at hblanks
  obtain ⟨w, hw, -⟩ := Option.map_eq_some_iff.1 hblanks.symm
  obtain ⟨x, hx, -⟩ := Option.bind_eq_some_iff.1 hw
  obtain ⟨d, v', hd, rfl⟩ := afterBlanks?_isSome_iff.1 (Option.isSome_of_eq_some hx)
  rw [← ht] at hv
  exact ⟨d, v', hd, after?_eq_some_iff.1 hv⟩

/-- An equals sign behind the word `syntax` makes a syntax declaration of the line. -/
theorem asSyntax?_of_assignment {t u rest : List Char} {b : Char} {a : Assignment} (hb : isBlank b)
    (ht : t = "syntax".toList ++ b :: u) (ha : assignment? t = some (a, rest)) :
    asSyntax? t ≠ none := by
  intro hdecl
  obtain ⟨⟨name, rest⟩, hn, hrest⟩ := Option.bind_eq_some_iff.1 ha
  obtain ⟨r, hr, -⟩ := Option.bind_eq_some_iff.1 hrest
  obtain ⟨hnn, hnw, hnr, he⟩ := word?_eq_some_iff.1 hn
  rw [ht] at he
  obtain ⟨-, rfl⟩ := word_append_inj (by decide)
    (fun c hc => by cases hc; exact isWord_of_isBlank hb) hnw hnr he
  rw [asSyntax?, ht, after?_append, Option.bind_some, hr] at hdecl
  cases hdecl

theorem readLine_syntax {t u : List Char} {b : Char} (hb : isBlank b)
    (ht : t = "syntax".toList ++ b :: u) :
    ∃ d v, isBlank d ∧ (readLine t).2 = "syntax".toList ++ d :: v := by
  have hword : firstWord t = "syntax".toList := by
    rw [ht]
    exact firstWord_append (by decide) fun c hc => by cases hc; exact isWord_of_isBlank hb
  have hne : ∀ k ∈ lineKeywords, k.toList ≠ "syntax".toList := by decide
  have hkeyword : ∀ {k : String} {g rest : List Char}, k ∈ lineKeywords → g ≠ [] → Blank g →
      t ≠ k.toList ++ (g ++ rest) := by
    intro k g rest hk hn hg he
    refine hne k hk ?_
    rw [← hword, he]
    exact (firstWord_append (word_of_lineKeyword k hk).2 (not_word_of_blank hn hg rest)).symm
  have hs := spelled_readLine t
  generalize readLine t = r at hs
  obtain ⟨category, text⟩ := r
  cases hs with
  | comment => exact ⟨b, u, hb, ht⟩
  | block hk hn hg _ he => exact absurd he (hkeyword (mem_lineKeywords_of_block hk) hn hg)
  | syntaxDecl => exact ⟨' ', _, by decide, rfl⟩
  | statement hk hn hg _ he => exact absurd he (hkeyword (mem_lineKeywords_of_statement hk) hn hg)
  | rpc hn hg _ he => exact absurd he (hkeyword (List.mem_cons_self ..) hn hg)
  | field _ _ _ hfield => exact exists_blank_of_syntax_field hb ht hword hfield
  | enumValue hdecl _ ha => exact absurd hdecl (asSyntax?_of_assignment hb ht ha)
  | other => exact ⟨b, u, hb, ht⟩

theorem code_spaced_syntax {t u : List Char} {b : Char} (hb : isBlank b) (ht : trim t = t)
    (hnl : '\n' ∉ t) (hcode : code t = "syntax".toList ++ b :: u) :
    ∃ d v, isBlank d ∧ code (spaced t) = "syntax".toList ++ d :: v := by
  obtain ⟨z, hz⟩ := code_isPrefix (trim_eq_self_iff.1 ht).1
  rw [hcode, List.append_assoc, List.cons_append] at hz
  obtain ⟨d, v, hd, hv⟩ := readLine_syntax hb hz.symm
  obtain ⟨w, hw⟩ := code_keyword_of_respaced (by decide) (by decide) hd hnl hcode
    (List.cons_ne_nil b u) hv
  exact ⟨d, w, hd, hw⟩

theorem spaceAssignment_word {w u : List Char} {x : Char} (hw : ∀ c ∈ w, isWord c)
    (hx : isBlank x = false) (he : x ≠ '=') :
    ∃ v, spaceAssignment (w ++ x :: u) = w ++ x :: v := by
  obtain ⟨hequals, hsemicolon⟩ := no_mark_of_word hw
  have hsolid := (solid_of_forall fun c hc => isBlank_of_isWord (hw c hc)).2
  rw [spaceAssignment, spaceEquals_append_cons hx he, spaceEquals_eq_self hequals,
    if_neg hequals, tightenFirstSemicolon_append hsemicolon hsolid, tightenFirstSemicolon_cons, hx,
    Bool.false_and]
  exact ⟨_, rfl⟩

/-- Normal spacing puts white space after the first word only before an equals sign. -/
theorem readLine_word {w u : List Char} {x : Char} (hw : ∀ c ∈ w, isWord c)
    (hx : isWord x = false) (hb : isBlank x = false) (he : x ≠ '=') :
    ∃ v, (readLine (w ++ x :: u)).2 = w ++ x :: v := by
  have hhead : ∀ c ∈ (x :: u).head?, isWord c = false := fun c hc => by
    cases hc
    exact hx
  have hkeyword : ∀ {k g rest : List Char}, (∀ c ∈ k, isWord c) → g ≠ [] → Blank g →
      w ++ x :: u ≠ k ++ (g ++ rest) := by
    intro k g rest hk hn hg h
    obtain ⟨-, h⟩ := word_append_inj hw hhead hk (not_word_of_blank hn hg rest) h
    obtain ⟨b, g, rfl⟩ := List.exists_cons_of_ne_nil hn
    rw [(List.cons.inj h).1, (blank_cons.1 hg).1] at hb
    cases hb
  have hs := spelled_readLine (w ++ x :: u)
  generalize readLine (w ++ x :: u) = r at hs
  obtain ⟨category, text⟩ := r
  cases hs with
  | comment => exact ⟨u, rfl⟩
  | block hk hn hg _ h =>
      exact absurd h (hkeyword (word_of_lineKeyword _ (mem_lineKeywords_of_block hk)).2 hn hg)
  | @syntaxDecl g k rest hg _ _ h =>
      have hword : ∀ c ∈ "syntax".toList, isWord c := by decide
      have h := (word_append_inj hw hhead hword
        (not_word_of_blank_cons hg (by decide) (k ++ rest)) h).2
      cases g with
      | nil => exact absurd (List.cons.inj h).1 he
      | cons b g =>
          rw [(List.cons.inj h).1, (blank_cons.1 hg).1] at hb
          cases hb
  | statement hk hn hg _ h =>
      exact absurd h (hkeyword (word_of_lineKeyword _ (mem_lineKeywords_of_statement hk)).2 hn hg)
  | rpc hn hg _ h => exact absurd h (hkeyword (word_of_lineKeyword "rpc" (by decide)).2 hn hg)
  | field => exact spaceAssignment_word hw hb he
  | enumValue => exact spaceAssignment_word hw hb he
  | other => exact ⟨u, rfl⟩

/-- White space after the first word of a line in normal spacing was there before, or an equals
sign was. -/
theorem blank_of_code_spaced {t w v : List Char} {b : Char} (ht : trim t = t) (hnl : '\n' ∉ t)
    (hn : w ≠ []) (hw : ∀ c ∈ w, isWord c) (hb : isBlank b) (hd : code (spaced t) = w ++ b :: v) :
    ∃ a u, (isBlank a ∨ a = '=') ∧ code t = w ++ a :: u := by
  obtain ⟨r, hcode, hrv⟩ := exists_of_compact_append (fun c hc => isFirm_of_isWord (hw c hc))
    (hd ▸ (compact_code_spaced hnl).symm)
  cases r with
  | nil =>
      rw [compact_nil] at hrv
      exact absurd (compact_eq_nil_iff.1 hrv.symm) (by simp)
  | cons a u =>
      refine ⟨a, u, ?_, hcode⟩
      by_contra hne
      rw [not_or, Bool.not_eq_true] at hne
      obtain ⟨hab, hae⟩ := hne
      have hfirm : ¬ isFirm a := fun hf =>
        head?_compact_of_not (c := b) (by rw [isFirm_iff, hb]; simp) v a
          (hrv ▸ head?_compact hab u) hf
      have hmark : isMark a := by
        rw [isFirm_iff, not_and, Bool.not_eq_false] at hfirm
        exact hfirm hab
      obtain ⟨z, hz⟩ := code_isPrefix (trim_eq_self_iff.1 ht).1
      rw [hcode, List.append_assoc, List.cons_append] at hz
      obtain ⟨x, hx⟩ := readLine_word (u := u ++ z) hw (isWord_of_isMark hmark) hab hae
      rw [hz] at hx
      have hprefix : w ++ b :: v <+: w ++ a :: x := by
        rw [← hd, ← hx]
        refine (code_isPrefix (startsSolid_trim _)).trans (trim_isPrefix ?_)
        rw [hx, startsSolid_append hn]
        exact (solid_of_forall fun c hc => isBlank_of_isWord (hw c hc)).1
      rw [List.prefix_append_right_inj, List.cons_prefix_cons] at hprefix
      rw [← hprefix.1, hb] at hab
      cases hab

end SchemaLint.Layout
