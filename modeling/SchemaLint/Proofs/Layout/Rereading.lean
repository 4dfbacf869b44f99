import SchemaLint.Proofs.Layout.AssignmentSpacing
import SchemaLint.Proofs.Layout.MethodSpacing
import SchemaLint.Proofs.Layout.Recognition

/-! Lines in normal spacing, read again. Most are read as what they are and stay as they are. The
exceptions are methods that lose the space after their keyword and are then nothing special, fields
and enum values with more than one semicolon to tighten, and enum values that a keyword names. -/

namespace SchemaLint.Layout
open SchemaLint.Text SchemaLint.Line

theorem trim_spaceKeyword {keyword : String} {rest : List Char} (hk : StartsWord keyword.toList)
    (hn : rest ≠ []) (hs : EndsSolid rest) :
    trim (spaceKeyword keyword rest) = spaceKeyword keyword rest := by
  obtain ⟨c, hc, hw⟩ := hk
  exact trim_of_head (List.mem_head?_append_of_mem_head? hc) hw (endsSolid_spaceKeyword hn hs)

/-- What follows a keyword on a trimmed line is there and ends solidly. -/
theorem endsSolid_rest {s g rest : List Char} {keyword : String} (hs : trim s = s) (hn : g ≠ [])
    (hg : Blank g) (he : s = keyword.toList ++ (g ++ rest)) : rest ≠ [] ∧ EndsSolid rest := by
  have hends := (trim_eq_self_iff.1 hs).2
  rw [he] at hends
  have hrest : rest ≠ [] := by
    rintro rfl
    rw [List.append_nil, endsSolid_append hn] at hends
    exact not_blank_of_endsSolid hn hends hg
  rw [endsSolid_append (by simp [hn]), endsSolid_append hrest] at hends
  exact ⟨hrest, hends⟩

theorem spaceFinalBrace_braced {t : List Char} (ht : EndsSolid t) :
    spaceFinalBrace (t ++ " \x7b".toList) = t ++ " \x7b".toList := by
  rw [show t ++ " \x7b".toList = (t ++ [' ']) ++ ['{'] by simp, spaceFinalBrace_concat,
    trimEnd_append (by decide), ht.trimEnd]
  simp

/-- The brace at the end is set off, and the text before it keeps its start. -/
theorem spaceOpener_brace_eq {keyword : String} {f : List Char}
    (hkeyword : EndsSolid keyword.toList) (hstart : StartsSolid (f ++ ['{'])) :
    ∃ rest', rest' ≠ [] ∧ StartsSolid rest' ∧ EndsSolid rest' ∧
      spaceOpener keyword (f ++ ['{']) = spaceKeyword keyword rest' ∧
      spaceFinalBrace (spaceKeyword keyword rest') = spaceKeyword keyword rest' := by
  have hopen : spaceOpener keyword (f ++ ['{']) =
      keyword.toList ++ (trimEnd (' ' :: f) ++ " \x7b".toList) := by
    rw [spaceOpener, spaceKeyword, ← List.cons_append, ← List.append_assoc,
      spaceFinalBrace_concat, trimEnd_append_of_solid hkeyword, List.append_assoc]
  by_cases hf : Blank f
  · have hf' : f = [] := by
      cases f with
      | nil => rfl
      | cons c f =>
          have := (blank_cons.1 hf).1
          rw [List.cons_append, startsSolid_cons, this] at hstart
          cases hstart
    subst hf'
    exact ⟨['{'], by simp, by decide, by decide, hopen, spaceFinalBrace_braced hkeyword⟩
  · have hte : trimEnd f ≠ [] := fun h => hf (trimEnd_eq_nil_iff.1 h)
    have hfs : StartsSolid f := by
      rwa [startsSolid_append (by rintro rfl; exact hf .nil)] at hstart
    have htrim : trimEnd (' ' :: f) = ' ' :: trimEnd f := trimEnd_append_of_not_blank [' '] hf
    have hends : EndsSolid (keyword.toList ++ ' ' :: trimEnd f) := by
      rw [endsSolid_append (by simp)]
      exact (endsSolid_append (s := [' ']) hte).2 (endsSolid_trimEnd f)
    refine ⟨trimEnd f ++ " \x7b".toList, by simp [hte], (startsSolid_append hte).2 hfs.trimEnd,
      (endsSolid_append (by decide)).2 (by decide), ?_, ?_⟩
    · rw [hopen, htrim]
      rfl
    · have hbraced := spaceFinalBrace_braced hends
      simpa only [spaceKeyword, List.append_assoc, List.cons_append] using hbraced

theorem spaceOpener_eq {keyword : String} {rest : List Char} (hk : keyword ∈ blockKeywords)
    (hn : rest ≠ []) (hstart : StartsSolid rest) (hs : EndsSolid rest) :
    ∃ rest', rest' ≠ [] ∧ StartsSolid rest' ∧ EndsSolid rest' ∧
      spaceOpener keyword rest = spaceKeyword keyword rest' ∧
      spaceFinalBrace (spaceKeyword keyword rest') = spaceKeyword keyword rest' := by
  by_cases hl : rest.getLast? = some '{'
  · obtain ⟨f, rfl⟩ := List.getLast?_eq_some_iff.1 hl
    exact spaceOpener_brace_eq (fun c hc =>
      no_blank_of_lineKeyword (mem_lineKeywords_of_block hk) c (List.mem_of_getLast? hc)) hstart
  · have hfix : spaceFinalBrace (spaceKeyword keyword rest) = spaceKeyword keyword rest := by
      apply spaceFinalBrace_of_ne (endsSolid_spaceKeyword hn hs)
      rwa [spaceKeyword, List.getLast?_append_of_ne_nil _ (by simp), ← List.singleton_append,
        List.getLast?_append_of_ne_nil _ hn]
    exact ⟨rest, hn, hstart, hs, hfix, hfix⟩

/-- The text of an opener that waits for its brace: only the gap after the keyword is respaced. -/
theorem wantsBrace_text {d : Nat} {l : List Char} (hw : (lineToken d l).wantsBrace) :
    ∃ keyword ∈ blockKeywords, ∃ g rest, g ≠ [] ∧ Blank g ∧ rest ≠ [] ∧ StartsSolid rest ∧
      EndsSolid rest ∧ trim l = keyword.toList ++ (g ++ rest) ∧
      (lineToken d l).text = spaceKeyword keyword rest := by
  obtain ⟨hblock, hopen, -⟩ := Token.wantsBrace_iff.1 hw
  have hspelled := spelled_readLine (trim l)
  rw [show (readLine (trim l)).1 = .block from hblock] at hspelled
  rw [lineToken] at hopen ⊢
  dsimp only at hopen ⊢
  generalize (readLine (trim l)).2 = text at hspelled hopen ⊢
  cases hspelled with
  | @block keyword g rest hk hn hg hstart he =>
      obtain ⟨hrest, hends⟩ := endsSolid_rest (trim_trim l) hn hg he
      refine ⟨keyword, hk, g, rest, hn, hg, hrest, hstart, hends, he, ?_⟩
      refine spaceFinalBrace_of_ne (endsSolid_spaceKeyword hrest hends) ?_
      intro hlast
      have hspaced : Respaced true (spaceKeyword keyword rest) (spaceOpener keyword rest) :=
        respaced_spaceFinalBrace _
      have hcount := hspaced.count (c := '{') (by decide)
      rw [List.count_eq_zero.2 hopen] at hcount
      exact List.count_eq_zero.1 hcount.symm (List.mem_of_getLast? hlast)
  | statement hk => simp [statementKeywords] at hk

theorem readLine_spaceOpener {keyword : String} {rest : List Char} (hk : keyword ∈ blockKeywords)
    (hn : rest ≠ []) (hstart : StartsSolid rest) (hs : EndsSolid rest) :
    readLine (trim (spaceOpener keyword rest)) = (.block, spaceOpener keyword rest) := by
  obtain ⟨rest', hn', hstart', hs', he, hfix⟩ := spaceOpener_eq hk hn hstart hs
  have hword := startsWord_of_lineKeyword (mem_lineKeywords_of_block hk)
  rw [he, trim_spaceKeyword hword hn' hs', spaceKeyword, readLine_block hk (by decide),
    hstart'.trimStart, spaceOpener, hfix, spaceKeyword]

theorem readLine_respaced_syntaxDecl {rest : List Char} (hstart : StartsSolid rest)
    (hs : EndsSolid rest) :
    readLine (trim ("syntax = ".toList ++ rest)) = (.syntaxDecl, "syntax = ".toList ++ rest) := by
  by_cases hn : rest = []
  · subst hn
    have h := readLine_syntaxDecl (g := [' ']) (h := []) (by decide) .nil .nil
    have ht : trim ("syntax = ".toList ++ []) =
        "syntax".toList ++ ([' '] ++ '=' :: ([] ++ [])) := by decide
    rw [ht, h]
  · have ht : trim ("syntax = ".toList ++ rest) = "syntax = ".toList ++ rest :=
      trim_of_head (c := 's') rfl (by decide) ((endsSolid_append hn).2 hs)
    have h := readLine_syntaxDecl (g := [' ']) (h := [' ']) (by decide) (by decide) hstart
    rw [ht]
    exact h

theorem readLine_respaced_statement {keyword : String} {category : Category} {rest : List Char}
    (hk : (keyword, category) ∈ statementKeywords) (hn : rest ≠ []) (hstart : StartsSolid rest)
    (hs : EndsSolid rest) :
    readLine (trim (spaceKeyword keyword rest)) = (category, spaceKeyword keyword rest) := by
  have hword := startsWord_of_lineKeyword (mem_lineKeywords_of_statement hk)
  rw [trim_spaceKeyword hword hn hs, spaceKeyword, readLine_statement hk (by decide),
    hstart.trimStart, spaceKeyword]

/-- A method whose keyword runs into a parenthesis or a semicolon is read as nothing special. -/
theorem readLine_rpc_tight {m : Char} {t : List Char} (hm : isTight m) :
    readLine ("rpc".toList ++ m :: t) = (.other, "rpc".toList ++ m :: t) := by
  simp only [isTight, Bool.or_eq_true, beq_iff_eq] at hm
  rcases hm with (rfl | rfl) | rfl <;> rfl

theorem readLine_respaced_rpc {rest : List Char} (hn : rest ≠ []) (hstart : StartsSolid rest)
    (hs : EndsSolid rest) :
    readLine (trim (spaceRpc rest)) = (.rpc, spaceRpc rest) ∨
      readLine (trim (spaceRpc rest)) = (.other, spaceRpc rest) := by
  have hsp : EndsSolid (' ' :: rest) := (endsSolid_append (s := [' ']) hn).2 hs
  have hall : EndsSolid ("rpc".toList ++ ' ' :: rest) := (endsSolid_append (by simp)).2 hsp
  have hword : spaceRpc rest = "rpc".toList ++ placeInMethod ' ' (spaceMethod rest) := by
    rw [spaceRpc_eq, spaceKeyword, spaceMethod_word_append (by decide) (by simp) hsp,
      spaceMethod_cons hn hs, if_neg (by decide)]
  have hends := (endsSolid_spaceMethod (s := "rpc".toList ++ ' ' :: rest) (by simp) hall).2
  have htrim : trim (spaceRpc rest) = spaceRpc rest :=
    trim_of_head (c := 'r') (head?_spaceRpc rest) (by decide) hends
  obtain ⟨hr, hre⟩ := endsSolid_spaceMethod hn hs
  have hidem := spaceMethod_spaceMethod hall
  rw [← spaceKeyword, ← spaceRpc_eq] at hidem
  rw [htrim]
  by_cases ht : (spaceMethod rest).head?.any isTight
  · right
    have hplace : placeInMethod ' ' (spaceMethod rest) = spaceMethod rest := by
      rw [placeInMethod, ht]
      rfl
    rw [hword, hplace]
    cases hm : spaceMethod rest with
    | nil => exact absurd hm hr
    | cons m t =>
        rw [hm] at ht
        exact readLine_rpc_tight ht
  · left
    obtain ⟨r, hrs, he⟩ : ∃ r, StartsSolid r ∧ spaceRpc rest = "rpc".toList ++ ' ' :: r := by
      rcases startsSolid_spaceMethod hstart hs with hss | hb
      · refine ⟨_, hss, ?_⟩
        have hb : spaceMethod rest ≠ " \x7b".toList := by
          intro hb
          rw [hb] at hss
          exact absurd hss (by decide)
        rw [hword, placeInMethod, eq_false_of_ne_true ht, decide_eq_false hb]
        rfl
      · refine ⟨['{'], by decide, ?_⟩
        rw [hword, hb]
        rfl
    rw [he, readLine_rpc (by decide), hrs.trimStart, spaceRpc_eq, spaceKeyword, ← he, hidem]

theorem Keywordless.of_isPrefix {s t t' : List Char} (hs : ∃ c ∈ s, isBlank c)
    (h : Keywordless (s ++ t)) : Keywordless (s ++ t') := by
  obtain ⟨u, b, v, hu, hb, rfl⟩ := exists_first_blank hs
  obtain ⟨hblock, hstatement, hrpc⟩ := h
  rw [List.append_assoc, List.cons_append] at hblock hstatement hrpc ⊢
  rw [asBlock?_append hu hb, Option.map_eq_none_iff] at hblock
  rw [asStatement?_append hu hb, Option.map_eq_none_iff] at hstatement
  rw [asRpc?_append hu hb] at hrpc
  have hne : "rpc".toList ≠ u := fun he => by
    rw [if_pos he] at hrpc
    cases hrpc
  constructor
  · rw [asBlock?_append hu hb, hblock]
    rfl
  · rw [asStatement?_append hu hb, hstatement]
    rfl
  · rw [asRpc?_append hu hb, if_neg hne]

theorem keywordless_map {s : List Char} (h : "map<".toList <+: s) (t : List Char) :
    Keywordless (s ++ t) := by
  obtain ⟨u, rfl⟩ := h
  exact ⟨rfl, rfl, rfl⟩

theorem readLine_respaced_field {s : List Char} (hs : EndsSolid s) (hk : Keywordless s)
    (h : (fieldName? s).isSome) :
    readLine (trim (spaceAssignment s)) = (.field, spaceAssignment (spaceAssignment s)) := by
  obtain ⟨c, hc, hw⟩ := startsWord_of_fieldName? (Option.get_mem h)
  obtain ⟨pre, type, gap, name, rest, hn, rfl⟩ := fieldName?_isSome_iff.1 h
  have hhead := head?_spaceAssignment hw hc
  obtain ⟨type', rest', hn', htype, hends, he⟩ := hn.spaceAssignment
  have hsolid := hn'.endsSolid_iff.2 (hends (hn.endsSolid_iff.1 hs))
  have hkeyword : Keywordless (pre ++ (type' ++ (gap ++ (name ++ rest')))) := by
    rcases htype with rfl | ⟨-, hmap⟩
    · obtain ⟨b, hb, hblank⟩ := hn.gapBlank.exists_mem hn.gapNonempty
      have hassoc : ∀ r, pre ++ (type' ++ (gap ++ (name ++ r))) =
          (pre ++ (type' ++ gap)) ++ (name ++ r) := by simp
      rw [hassoc] at hk ⊢
      exact hk.of_isPrefix ⟨b, by simp [hb], hblank⟩
    · rcases hn.label with rfl | ⟨label, -, g, hgn, hg, rfl⟩
      · exact keywordless_map hmap _
      · obtain ⟨b, hb, hblank⟩ := hg.exists_mem hgn
        exact hk.of_isPrefix ⟨b, by simp [hb], hblank⟩
  rw [he] at hhead ⊢
  rw [trim_of_head hhead hw hsolid]
  exact readLine_field hkeyword.noBlock hkeyword.noStatement hkeyword.noRpc
    (fieldName?_isSome_iff.2 ⟨_, _, _, _, _, hn', rfl⟩)

theorem asSyntax?_of_enumValue {name g t u : List Char} {b : Char} (hw : ∀ c ∈ name, isWord c)
    (hg : Blank g) (hb : isBlank b) (h : asSyntax? (name ++ (g ++ '=' :: t)) = none) :
    asSyntax? (name ++ b :: u) = none := by
  by_cases hname : "syntax".toList = name
  · obtain ⟨k, hk, hs⟩ := exists_trimStart t
    rw [← hname, hs, asSyntax?_eq hg hk (startsSolid_trimStart t)] at h
    cases h
  · refine asSyntax?_of_ne hw (fun c hc => ?_) hname
    cases hc
    exact isWord_of_isBlank hb

theorem readLine_respaced_enumValue {s : List Char} (hs : EndsSolid s) (hdecl : asSyntax? s = none)
    (h : (assignment? s).isSome) (hk : Keywordless (spaceAssignment s)) :
    readLine (trim (spaceAssignment s)) = (.enumValue, spaceAssignment (spaceAssignment s)) := by
  obtain ⟨c, hc, hw⟩ := startsWord_of_assignment? (Option.get_mem h)
  have hhead := head?_spaceAssignment hw hc
  obtain ⟨name, g, k, num, z, hne, hword, hg, hkb, hnum, rfl⟩ := assignment?_isSome_iff.1 h
  have hmarks := no_mark_of_word hword
  have hnamesolid : EndsSolid name := fun c hc =>
    isBlank_of_isWord (hword c (List.mem_of_getLast? hc))
  have he := spaceAssignment_append (u := z) hmarks.1 hmarks.2 hnamesolid hg hkb hnum.solid.1
    hnum.ne_nil hnum.solid.2 hnum.no_semicolon
  rw [he] at hhead hk ⊢
  have hsolid : EndsSolid (name ++ (" = ".toList ++ (num ++ tightenFirstSemicolon z))) := by
    rw [endsSolid_append (by simp), endsSolid_append (by simp [hnum.ne_nil])]
    by_cases hz : z = []
    · rw [hz, show num ++ tightenFirstSemicolon [] = num from List.append_nil num]
      exact hnum.solid.2
    · rw [endsSolid_append (tightenFirstSemicolon_ne_nil hz)]
      have hz' : name ++ (g ++ '=' :: (k ++ (num ++ z))) =
          (name ++ (g ++ '=' :: (k ++ num))) ++ z := by simp
      rw [hz', endsSolid_append hz] at hs
      exact endsSolid_tightenFirstSemicolon hs
  rw [trim_of_head hhead hw hsolid]
  exact readLine_enumValue hk.noBlock (asSyntax?_of_enumValue hword hg (by decide) hdecl)
    hk.noStatement hk.noRpc (fieldName?_of_equals (g := [' ']) hne hword (by decide))
    (assignment?_isSome_iff.2
      ⟨name, [' '], [' '], num, _, hne, hword, by decide, by decide, hnum, rfl⟩)

def Category.assigns (category : Category) : Prop :=
  category = .field ∨ category = .enumValue

theorem readLine_again {s : List Char} (hs : trim s = s) {category : Category} {t : List Char}
    (h : readLine s = (category, t)) :
    (¬ category.assigns ∧ readLine (trim t) = (category, t)) ∨
      (category = .rpc ∧ readLine (trim t) = (.other, t)) ∨
      (category.assigns ∧ readLine (trim t) = (category, spaceAssignment t)) ∨
      (category = .enumValue ∧ ¬ Keywordless t) := by
  have hends := (trim_eq_self_iff.1 hs).2
  have hspelled := spelled_readLine s
  rw [h] at hspelled
  cases hspelled with
  | comment => exact .inl ⟨by simp [Category.assigns], hs.symm ▸ h⟩
  | block hk hn hg hstart he =>
      obtain ⟨hrest, hends⟩ := endsSolid_rest hs hn hg he
      exact .inl ⟨by simp [Category.assigns], readLine_spaceOpener hk hrest hstart hends⟩
  | @syntaxDecl g k rest hg hk hstart he =>
      refine .inl ⟨by simp [Category.assigns], readLine_respaced_syntaxDecl hstart ?_⟩
      by_cases hn : rest = []
      · rw [hn]
        exact .nil
      · rw [he] at hends
        have : "syntax".toList ++ (g ++ '=' :: (k ++ rest)) =
            ("syntax".toList ++ (g ++ '=' :: k)) ++ rest := by simp
        rwa [this, endsSolid_append hn] at hends
  | @statement keyword _ g rest hk hn hg hstart he =>
      obtain ⟨hrest, hends⟩ := endsSolid_rest hs hn hg he
      refine .inl ⟨?_, readLine_respaced_statement hk hrest hstart hends⟩
      rintro (rfl | rfl) <;> simp [statementKeywords] at hk
  | rpc hn hg hstart he =>
      obtain ⟨hrest, hends⟩ := endsSolid_rest hs hn hg he
      rcases readLine_respaced_rpc hrest hstart hends with h | h
      · exact .inl ⟨by simp [Category.assigns], h⟩
      · exact .inr (.inl ⟨rfl, h⟩)
  | field hblock hstatement hrpc hn =>
      exact .inr (.inr (.inl ⟨.inl rfl, readLine_respaced_field hends ⟨hblock, hstatement, hrpc⟩
        (Option.isSome_iff_exists.2 ⟨_, hn⟩)⟩))
  | enumValue hdecl _ ha =>
      by_cases hk : Keywordless (spaceAssignment s)
      · exact .inr (.inr (.inl ⟨.inr rfl, readLine_respaced_enumValue hends hdecl
          (Option.isSome_iff_exists.2 ⟨_, ha⟩) hk⟩))
      · exact .inr (.inr (.inr ⟨rfl, hk⟩))
  | other => exact .inl ⟨by simp [Category.assigns], hs.symm ▸ h⟩

end SchemaLint.Layout
