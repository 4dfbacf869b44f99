import SchemaLint.Proofs.Layout.MethodShape
import SchemaLint.Proofs.Structure.Alike

/-! The checks of a line under its normal spacing. A line that passes them still does once it is
spaced, unless spacing makes it an opener, a statement that lacks its semicolon or a malformed
method that it was not before. -/

namespace SchemaLint.Structure
open SchemaLint.Text SchemaLint.Line SchemaLint.Layout

/-- Spaced code is read as nothing that the checks object to and that the code was not read as. -/
structure ReadAlike (context : Option BlockKind) (code spaced : List Char) : Prop where
  opener : (opener? spaced).isSome → (opener? code).isSome
  semicolon : Line.lacksSemicolon spaced → Line.lacksSemicolon code
  method : context = some .service → startsWith "rpc ".toList spaced →
    startsWith "rpc ".toList code ∨ isRpc spaced

theorem ReadAlike.refl (context : Option BlockKind) (code : List Char) :
    ReadAlike context code code :=
  ⟨id, id, fun _ h => .inl h⟩

section
variable {c : List Char}

theorem fieldCauses_eq_nil_iff :
    fieldCauses c = [] ↔ (isField c → hasTerminatedNumber c) := by
  unfold fieldCauses
  cases isField c <;> cases hasTerminatedNumber c <;> simp
  split <;> simp

theorem valueCauses_eq_nil_iff :
    valueCauses c = [] ↔ (isEnumValue c → isTerminatedValue c) := by
  unfold valueCauses
  cases isEnumValue c <;> cases isTerminatedValue c <;> simp
  split <;> simp

theorem memberCauses_eq_nil_iff {context : Option BlockKind} :
    memberCauses context c = [] ↔
      (context = some .message ∨ context = some .oneof → fieldCauses c = []) ∧
        (context = some .enum → valueCauses c = []) := by
  cases context with
  | none => simp [memberCauses]
  | some kind => cases kind <;> simp [memberCauses]

theorem rpcCauses_eq_nil_iff {context : Option BlockKind} :
    rpcCauses context c = [] ↔
      (context = some .service → startsWith "rpc ".toList c → isRpc c) := by
  unfold rpcCauses
  by_cases hc : context = some .service
  · cases startsWith "rpc ".toList c <;> cases isRpc c <;> simp [hc]
  · simp [hc]

theorem topLevelCauses_eq_nil_iff {atTopLevel : Bool} :
    topLevelCauses atTopLevel c = [] ↔ (atTopLevel → isTopLevel c) := by
  unfold topLevelCauses
  cases atTopLevel <;> cases isTopLevel c <;> simp

end

theorem afterLastSemicolon_append {a b : List Char} (hb : ';' ∉ b) :
    afterLastSemicolon (a ++ ';' :: b) = b := by
  have hall : ∀ c ∈ b.reverse, (c != ';') = true := by
    intro c hc
    rw [bne_iff_ne]
    rintro rfl
    exact hb (List.mem_reverse.1 hc)
  have hr : (a ++ ';' :: b).reverse = b.reverse ++ ';' :: a.reverse := by simp
  rw [afterLastSemicolon, hr, List.takeWhile_append_of_pos hall]
  simp

theorem exists_last_semicolon {s : List Char} (h : ';' ∈ s) :
    ∃ a b, ';' ∉ b ∧ s = a ++ ';' :: b := by
  obtain ⟨a, b, he, ha⟩ := List.eq_append_cons_of_mem (List.mem_reverse.2 h)
  refine ⟨b.reverse, a.reverse, by simpa using ha, ?_⟩
  have := congrArg List.reverse he
  simpa using this

theorem trim_afterLastSemicolon_compact {s : List Char} (h : ';' ∈ s) :
    trim (afterLastSemicolon (compact s)) = compact (trim (afterLastSemicolon s)) := by
  obtain ⟨a, b, hb, rfl⟩ := exists_last_semicolon h
  obtain ⟨a', he, -⟩ := compact_append_cons a (x := ';') (by decide) b
  have hb' : ';' ∉ trimStart (compact b) := fun hm =>
    hb ((mem_compact (by decide)).1 ((List.dropWhile_suffix _).subset hm))
  rw [he, compact_cons, press_mark (by decide), afterLastSemicolon_append hb',
    afterLastSemicolon_append hb, ← trim_compact, trim, (startsSolid_trimStart _).trimStart, trim]

theorem trailingFaults_compact (s : List Char) :
    trailingFaults 0 0 (compact s) = [] ↔ trailingFaults 0 0 s = [] := by
  have hmem : ∀ c, isBlank c = false → (compact s).contains c = s.contains c := by
    intro c hc
    rw [Bool.eq_iff_iff, List.contains_iff_mem, List.contains_iff_mem, mem_compact hc]
  by_cases hs : ';' ∈ s
  · have hstart : ∀ k : List Char, (∀ c ∈ k, isFirm c) → ∀ u, startsWith k (compact u) =
        startsWith k u := fun k hk u => by
      rw [startsWith, after?_compact hk, Option.isSome_map, startsWith]
    simp only [trailingFaults, hmem ';' (by decide), hmem '{' (by decide),
      trim_afterLastSemicolon_compact hs, compact_eq_nil_iff,
      hstart "//".toList (by decide), hstart "/*".toList (by decide)]
    split <;> simp
  · have hs' : ';' ∉ compact s := fun hm => hs ((mem_compact (by decide)).1 hm)
    rw [trailingFaults_of_no_semicolon 0 0 hs, trailingFaults_of_no_semicolon 0 0 hs']

theorem isCloser_of_word {s : List Char} (h : StartsWord s) : isCloser s = false := by
  obtain ⟨c, hc, hw⟩ := h
  refine Bool.eq_false_iff.2 fun hcl => ?_
  rcases closer_cases hcl with rfl | rfl <;> (cases hc; exact absurd hw (by decide))

theorem isTopLevel_keyword_blank {keyword : String} (hk : keyword ∈ ["syntax", "package", "import",
    "option", "message", "enum", "service", "extend"]) {b : Char} (hb : isBlank b)
    (t : List Char) : isTopLevel (keyword.toList ++ b :: t) := by
  have hsome : (afterKeyword? ["syntax", "package", "import", "option", "message", "enum",
      "service", "extend"] (keyword.toList ++ b :: t)).isSome :=
    exists_keyword_iff.2 ⟨keyword, hk, b, t, hb, rfl⟩
  simp [isTopLevel, hsome]

/-- A line that starts with a word may stand at top level for one of two reasons. -/
theorem exists_of_isTopLevel {s : List Char} (hs : StartsWord s) (h : isTopLevel s) :
    (∃ k ∈ ["syntax", "package", "import", "option", "message", "enum", "service", "extend"],
      ∃ b t, isBlank b ∧ s = k.toList ++ b :: t) ∨
    ∃ k ∈ ["message", "enum", "service", "extend"], s = k.toList ∨
      ∃ t, s = k.toList ++ '{' :: t := by
  obtain ⟨c, hc, hw⟩ := hs
  have hcomment := isComment_of_word hc hw
  rw [isComment, opensBlock, Bool.or_eq_false_iff, Bool.or_eq_false_iff] at hcomment
  have hbrace : s ≠ ['{'] := by
    rintro rfl
    cases hc
    exact absurd hw (by decide)
  rw [isTopLevel, isCloser_of_word ⟨c, hc, hw⟩, hcomment.1.1, hcomment.1.2,
    decide_eq_false hbrace] at h
  simp only [Bool.false_or, Bool.or_false, Bool.or_eq_true, List.any_eq_true] at h
  rcases h with h | ⟨k, hk, h⟩
  · exact .inl (exists_keyword_iff.1 h)
  · obtain ⟨r, hr, h⟩ := (Option.any_eq_true _ _).1 h
    refine .inr ⟨k, hk, ?_⟩
    have hs := after?_eq_some_iff.1 hr
    rw [Bool.or_eq_true, decide_eq_true_eq, decide_eq_true_eq] at h
    rcases h with rfl | h
    · exact .inl (by rw [hs, List.append_nil])
    · obtain ⟨t, rfl⟩ := List.head?_eq_some_iff.1 h
      exact .inr ⟨t, hs⟩

/-- A keyword of a block, and behind it nothing, white space or a brace. -/
theorem isTopLevel_of_compact {keyword : String} {c u : List Char}
    (hk : keyword ∈ ["message", "enum", "service", "extend"])
    (hfirm : ∀ a ∈ keyword.toList, isFirm a)
    (hmem : keyword ∈ ["syntax", "package", "import", "option", "message", "enum", "service",
      "extend"])
    (h : compact c = compact (keyword.toList ++ '{' :: u)) : isTopLevel c := by
  obtain ⟨v, rfl, hvu⟩ := exists_of_compact_append hfirm h
  cases v with
  | nil =>
      rw [compact_nil] at hvu
      exact absurd (compact_eq_nil_iff.1 hvu.symm) (by simp)
  | cons d v =>
      cases hd : isBlank d with
      | true => exact isTopLevel_keyword_blank hmem hd v
      | false =>
          have hhead := head?_compact hd v
          rw [hvu, head?_compact (by decide)] at hhead
          cases hhead
          have hany : (["message", "enum", "service", "extend"].any fun l =>
              (after? l.toList (keyword.toList ++ '{' :: v)).any fun rest =>
                rest = [] || rest.head? = some '{') := by
            refine List.any_eq_true.2 ⟨keyword, hk, ?_⟩
            rw [after?_append]
            rfl
          rw [isTopLevel, hany]
          simp

theorem isTopLevel_keyword_spaced {t u : List Char} {keyword : String} {b : Char}
    (ht : trim t = t) (hnl : '\n' ∉ t)
    (hk : keyword ∈ ["syntax", "package", "import", "option", "message", "enum", "service",
      "extend"])
    (hb : isBlank b) (he : code t = keyword.toList ++ b :: u) : isTopLevel (code (spaced t)) := by
  by_cases hsyntax : keyword = "syntax"
  · subst hsyntax
    obtain ⟨d, v, hd, hv⟩ := code_spaced_syntax hb ht hnl he
    rw [hv]
    exact isTopLevel_keyword_blank hk hd v
  · have hline : ∀ k ∈ ["syntax", "package", "import", "option", "message", "enum", "service",
        "extend"], k ≠ "syntax" → k ∈ lineKeywords ∧ k ≠ "rpc" := by decide
    obtain ⟨hmem, hne⟩ := hline keyword hk hsyntax
    obtain ⟨v, hv⟩ := code_spaced_keyword hmem hne hb ht hnl he
    rw [hv]
    exact isTopLevel_keyword_blank hk (by decide) v

/-- What may stand at top level may still stand there in normal spacing. -/
theorem isTopLevel_code_spaced {t : List Char} (ht : trim t = t) (hnl : '\n' ∉ t)
    (h : isTopLevel (code t)) : isTopLevel (code (spaced t)) := by
  rcases spaced_cases ht with hs | ⟨-, hcode, -⟩
  · rwa [hs]
  have hcompact := compact_code_spaced hnl
  have hword : ∀ k ∈ ["message", "enum", "service", "extend"], (∀ c ∈ k.toList, isFirm c) ∧
      k ∈ ["syntax", "package", "import", "option", "message", "enum", "service", "extend"] := by
    decide
  rcases exists_of_isTopLevel hcode h with ⟨k, hk, b, u, hb, he⟩ | ⟨k, hk, he | ⟨u, he⟩⟩
  · exact isTopLevel_keyword_spaced ht hnl hk hb he
  · have hsame : code (spaced t) = code t := by
      rw [he] at hcompact ⊢
      exact eq_of_compact_eq (hword k hk).1 hcompact
    rwa [hsame]
  · exact isTopLevel_of_compact hk (hword k hk).1 (hword k hk).2 (he ▸ hcompact)

theorem isField_of_compact {c d : List Char} (h : compact d = compact c)
    (hc : isCloser c = false) (hd : isCloser d = false) : isField d = isField c := by
  have hnested : isNestedDefinition d = isNestedDefinition c := by
    rw [← isNestedDefinition_compact d, h, isNestedDefinition_compact]
  have hshaped : isFieldShaped d = isFieldShaped c := by
    rw [← isFieldShaped_compact d, h, isFieldShaped_compact]
  rw [isField, isField, hc, hd, hnested, hshaped]

theorem fieldCauses_of_compact {c d : List Char} (h : compact d = compact c)
    (hc : isCloser c = false) (hd : isCloser d = false) (hfaults : fieldCauses c = []) :
    fieldCauses d = [] := by
  rw [fieldCauses_eq_nil_iff] at hfaults ⊢
  rw [isField_of_compact h hc hd, ← hasTerminatedNumber_compact d, h, hasTerminatedNumber_compact]
  exact hfaults

theorem valueCauses_code_spaced {t : List Char} (ht : trim t = t) (hnl : '\n' ∉ t)
    (hc : StartsWord (code t)) (h : valueCauses (code t) = []) :
    valueCauses (code (spaced t)) = [] := by
  have hoption : startsWith "option ".toList (code t) →
      startsWith "option ".toList (code (spaced t)) :=
    startsWith_code_spaced (k := "option") (by decide) (by decide) ht hnl
  have hreserved : startsWith "reserved ".toList (code t) →
      startsWith "reserved ".toList (code (spaced t)) :=
    startsWith_code_spaced (k := "reserved") (by decide) (by decide) ht hnl
  rw [valueCauses_eq_nil_iff] at h ⊢
  intro hd
  rw [← isTerminatedValue_compact, compact_code_spaced hnl, isTerminatedValue_compact]
  simp only [isEnumValue, Bool.and_eq_true, Bool.not_eq_true'] at h hd
  obtain ⟨⟨⟨-, ho⟩, hr⟩, -⟩ := hd
  refine h ⟨⟨⟨isCloser_of_word hc, Bool.eq_false_iff.2 fun hs => ?_⟩,
    Bool.eq_false_iff.2 fun hs => ?_⟩, ?_⟩
  · rw [hoption hs] at ho
    cases ho
  · rw [hreserved hs] at hr
    cases hr
  · obtain ⟨a, ha, hw⟩ := hc
    rw [ha]
    exact hw

/-- A line in normal spacing passes the checks that it passed, if it is read as it was. -/
theorem sound_spaced {context : Option BlockKind} {atTopLevel : Bool} {t : List Char}
    (ht : trim t = t) (hnl : '\n' ∉ t) (hc : StartsWord (code t))
    (hd : StartsWord (code (spaced t))) (h : Sound context atTopLevel (code t))
    (hr : ReadAlike context (code t) (code (spaced t))) :
    Sound context atTopLevel (code (spaced t)) := by
  have hcompact := compact_code_spaced hnl
  refine ⟨?_, ?_, ?_, ?_, ?_, ?_⟩
  · obtain ⟨hfield, hvalue⟩ := memberCauses_eq_nil_iff.1 h.member
    refine memberCauses_eq_nil_iff.2 ⟨fun hk => ?_, fun hk => ?_⟩
    · exact fieldCauses_of_compact hcompact (isCloser_of_word hc) (isCloser_of_word hd) (hfield hk)
    · exact valueCauses_code_spaced ht hnl hc (hvalue hk)
  · refine rpcCauses_eq_nil_iff.2 fun hk hs => ?_
    rcases hr.method hk hs with hs | hs
    · exact isRpc_code_spaced ht hnl
        (isLooseRpc_of_isRpc (rpcCauses_eq_nil_iff.1 h.method hk hs))
    · exact hs
  · have := h.version
    rwa [syntaxCauses, ← syntaxValue?_code_spaced ht hnl, ← syntaxCauses] at this
  · rw [← trailingFaults_compact, hcompact, trailingFaults_compact]
    exact h.trailing
  · exact topLevelCauses_eq_nil_iff.2 fun htop =>
      isTopLevel_code_spaced ht hnl (topLevelCauses_eq_nil_iff.1 h.topLevel htop)
  · refine Bool.eq_false_iff.2 fun hs => ?_
    have := hr.semicolon hs
    rw [h.semicolon] at this
    cases this

theorem isNamed_of_faults {s : State} {n : Nat} {c : List Char} {o : Opener}
    (h : (blocks s n c).faults = []) (ho : opener? c = some o) : o.isNamed := by
  have hdeclare : (declare n c (settle s c)).faults = [] := (List.append_eq_nil_iff.1 h).1
  rw [declare, ho] at hdeclare
  by_contra hn
  have hname : o.name = [] := by simpa [Opener.isNamed] using hn
  simp only [hname, if_true] at hdeclare
  split at hdeclare
  · simp at hdeclare
  · split at hdeclare <;> simp at hdeclare

theorem sameBraces_of_compact {s : State} {n : Nat} {c d : List Char} (h : compact d = compact c)
    (hc : StartsWord c) (hd : StartsWord d) (hfaults : (blocks s n c).faults = [])
    (hopener : (opener? d).isSome → (opener? c).isSome) : SameBraces c d := by
  have hbrace : ∀ {t : List Char}, StartsWord t → t.head? ≠ some '{' := by
    rintro t ⟨a, ha, hw⟩ hb
    rw [ha] at hb
    cases hb
    exact absurd hw (by decide)
  refine ⟨⟨fun hb => absurd hb (hbrace hc), fun hb => absurd hb (hbrace hd)⟩,
    (count_of_compact h (by decide)).symm, (count_of_compact h (by decide)).symm, ?_⟩
  cases ho : opener? c with
  | none =>
      have hnone : opener? d = none := by
        rw [ho] at hopener
        exact Option.not_isSome_iff_eq_none.1 fun hs => absurd (hopener hs) (by simp)
      rw [hnone]
  | some o =>
      have hnamed := isNamed_of_faults hfaults ho
      have hcompact := opener?_compact_of_named ho hnamed
      rw [← h] at hcompact
      obtain ⟨p, hp, -, he⟩ := exists_opener?_of_compact hcompact hnamed
      obtain ⟨hkind, hname, hrest⟩ := Opener.mk.inj he
      have hblank : trim o.rest = [] ↔ trim p.rest = [] := by
        rw [trim_eq_nil_iff, trim_eq_nil_iff, ← blank_compact, hrest, blank_compact]
      rw [hp, Option.map_some, Option.map_some, outline, outline, hkind, hname,
        decide_eq_decide.2 hblank]

/-- A line of code without faults has none in normal spacing exactly if it is read as it was, and
then it is scanned alike. -/
theorem scanCode_spaced {s s' : State} (ha : Alike s s') {t : List Char} (ht : trim t = t)
    (hnl : '\n' ∉ t) {n i : Nat} (hclean : (scanCode s n i (code t)).2 = []) (m j : Nat) :
    ((scanCode s' m j (code (spaced t))).2 = [] ↔
        ReadAlike s.context (code t) (code (spaced t))) ∧
      (ReadAlike s.context (code t) (code (spaced t)) →
        Alike (scanCode s n i (code t)).1 (scanCode s' m j (code (spaced t))).1) := by
  obtain ⟨hsound, hfaults⟩ := scanCode_eq_nil_iff.1 hclean
  rw [scanCode_eq_nil_iff, ← ha.context, ← ha.atTopLevel]
  rcases spaced_cases ht with hs | ⟨-, hc, hd⟩
  · have hb := SameBraces.refl (code t)
    rw [hs]
    exact ⟨⟨fun _ => .refl _ _, fun _ => ⟨hsound, (blocks_alike ha hb n m).faults.1 hfaults⟩⟩,
      fun _ => scanCode_alike ha hb n m i j⟩
  · have hcompact := compact_code_spaced hnl
    have hsame := fun hr : ReadAlike s.context (code t) (code (spaced t)) =>
      sameBraces_of_compact hcompact hc hd hfaults hr.opener
    refine ⟨⟨?_, fun hr => ?_⟩, fun hr => scanCode_alike ha (hsame hr) n m i j⟩
    · rintro ⟨hsound', hfaults'⟩
      refine ⟨fun ho => ?_, fun hl => ?_, fun hk hs => ?_⟩
      · obtain ⟨o, ho⟩ := Option.isSome_iff_exists.1 ho
        have hnamed := isNamed_of_faults hfaults' ho
        have hcompact' := opener?_compact_of_named ho hnamed
        rw [hcompact] at hcompact'
        obtain ⟨p, hp, -⟩ := exists_opener?_of_compact hcompact' hnamed
        exact Option.isSome_of_eq_some hp
      · rw [hsound'.semicolon] at hl
        cases hl
      · exact .inr (rpcCauses_eq_nil_iff.1 hsound'.method hk hs)
    · exact ⟨sound_spaced ht hnl hc hd hsound hr,
        (blocks_alike ha (hsame hr) n m).faults.1 hfaults⟩

end SchemaLint.Structure
