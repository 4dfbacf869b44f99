import SchemaLint.Proofs.Document.Shapes
import SchemaLint.Proofs.Line.Cut
import SchemaLint.Proofs.Structure.Spacing

/-! Lines that the layout takes apart or puts together. A line that is scanned without faults is a
statement and a closing line scanned one after the other, and an opener and the brace below it are
scanned as one line that ends in the brace. -/

namespace SchemaLint.Structure
open SchemaLint.Text SchemaLint.Line SchemaLint.Layout

section
variable {s : State} {n : Nat} {c : List Char} {o : Opener}

/-- An opener that waits gets its brace from the next line of code. -/
theorem pending_of_faults (h : (blocks s n c).faults = []) (hc : c.head? ≠ some '{') :
    s.pending = none := by
  have hdeclare : (declare n c (settle s c)).faults = [] := (List.append_eq_nil_iff.1 h).1
  cases hp : s.pending with
  | none => rfl
  | some block =>
      have hsettle : settle s c = { stack := s.stack, faults := [block.lacksBrace] } := by
        rw [settle, hp]
        exact if_neg hc
      rw [hsettle, declare] at hdeclare
      split at hdeclare
      · cases hdeclare
      · dsimp only at hdeclare
        split at hdeclare
        · cases hdeclare
        · split at hdeclare <;> cases hdeclare

theorem settle_of_none (hpending : s.pending = none) (c : List Char) :
    settle s c = { stack := s.stack } := by
  rw [settle, hpending]

/-- Nothing but white space follows the name of an opener that has to wait. -/
theorem rest_of_faults (h : (blocks s n c).faults = []) (ho : opener? c = some o)
    (hbrace : '{' ∉ c) : Blank o.rest := by
  have hdeclare : (declare n c (settle s c)).faults = [] := (List.append_eq_nil_iff.1 h).1
  have hmem : c.contains '{' = false := by simpa using hbrace
  rw [declare, ho] at hdeclare
  by_contra hr
  rw [← trim_eq_nil_iff] at hr
  simp [hbrace, hr] at hdeclare

/-- A named opener is its keyword, white space, its name and what follows. -/
theorem opener?_named_iff :
    opener? c = some o ∧ o.isNamed ↔ o.kind ∈ BlockKind.declared ∧ o.name ≠ [] ∧
      (∀ a ∈ o.name, isWord a) ∧ (∀ a ∈ o.rest.head?, isWord a = false) ∧
      ∃ g, g ≠ [] ∧ Blank g ∧ c = o.kind.word.toList ++ (g ++ (o.name ++ o.rest)) := by
  constructor
  · rintro ⟨ho, hn⟩
    obtain ⟨kind, hk, hw, ho⟩ := opener?_eq_some_iff.1 ho
    have hfilter := openerAfter_filter kind (c.dropWhile isWord)
    rw [ho, Option.filter_some_pos hn] at hfilter
    obtain ⟨r, hr, rfl⟩ := Option.map_eq_some_iff.1 hfilter.symm
    obtain ⟨x, hx, hr⟩ := Option.bind_eq_some_iff.1 hr
    obtain ⟨g, hgn, hg, -, he⟩ := afterBlanks?_eq_some_iff.1 hx
    obtain ⟨hname, hword, hrest, rfl⟩ := word?_eq_some_iff.1 hr
    refine ⟨hk, hname, hword, hrest, g, hgn, hg, ?_⟩
    change c = kind.word.toList ++ (g ++ (r.1 ++ r.2))
    rw [hw, ← he]
    exact List.takeWhile_append_dropWhile.symm
  · rintro ⟨hk, hname, hword, hrest, g, hgn, hg, he⟩
    have hfirst : firstWord c = o.kind.word.toList := by
      rw [he]
      exact firstWord_append (word_of_declared _ hk) (not_word_of_blank hgn hg _)
    have hafter : c.dropWhile isWord = g ++ (o.name ++ o.rest) := by
      have hsplit : firstWord c ++ c.dropWhile isWord = c := List.takeWhile_append_dropWhile
      rw [hfirst, he] at hsplit
      rw [he]
      exact List.append_cancel_left hsplit
    have hsolid : StartsSolid (o.name ++ o.rest) := by
      rw [startsSolid_append hname]
      exact (solid_of_forall fun a ha => isBlank_of_isWord (hword a ha)).1
    have hfilter := openerAfter_filter o.kind (g ++ (o.name ++ o.rest))
    rw [afterBlanks?_eq_some_iff.2 ⟨g, hgn, hg, hsolid, rfl⟩, Option.bind_some,
      word?_eq_some_iff.2 ⟨hname, hword, hrest, rfl⟩, Option.map_some,
      Option.filter_eq_some_iff] at hfilter
    exact ⟨opener?_eq_some_iff.2 ⟨o.kind, hk, hfirst.symm, hafter.symm ▸ hfilter.1⟩, hfilter.2⟩

/-- A keyword that white space, a brace or nothing follows is an opener. -/
theorem opener?_keyword {kind : BlockKind} (hk : kind ∈ BlockKind.declared) {u : List Char}
    (hu : ∀ a ∈ u.head?, isBlank a ∨ a = '{') : (opener? (kind.word.toList ++ u)).isSome := by
  refine List.findSome?_isSome_iff.2 ⟨kind, hk, ?_⟩
  rw [after?_append, Option.bind_some]
  cases u with
  | nil => rfl
  | cons b u =>
      split
      case h_1 => rfl
      case h_2 => rfl
      case h_3 hne =>
          rcases hu b rfl with hb | rfl
          · rw [afterBlanks?, if_pos hb]
            rfl
          · exact absurd rfl (hne u)

/-- A line that is a named opener alone holds words and white space. -/
theorem word_or_blank_of_opener (ho : opener? c = some o) (hn : o.isNamed) (hr : Blank o.rest) :
    ∀ a ∈ c, isWord a ∨ isBlank a := by
  obtain ⟨hk, -, hword, -, g, -, hg, rfl⟩ := opener?_named_iff.1 ⟨ho, hn⟩
  intro a ha
  simp only [List.mem_append] at ha
  rcases ha with ha | ha | ha | ha
  · exact .inl (word_of_declared _ hk a ha)
  · exact .inr (hg a ha)
  · exact .inl (hword a ha)
  · exact .inr (hr a ha)

theorem opener?_append_brace (ho : opener? c = some o) (hn : o.isNamed) (hr : Blank o.rest) :
    opener? (c ++ " \x7b".toList) = some { o with rest := o.rest ++ " \x7b".toList } := by
  obtain ⟨hk, hname, hword, -, g, hgn, hg, rfl⟩ := opener?_named_iff.1 ⟨ho, hn⟩
  refine (opener?_named_iff (o := { o with rest := o.rest ++ " \x7b".toList }).2
    ⟨hk, hname, hword, ?_, g, hgn, hg, ?_⟩).1
  · have hblank : Blank (o.rest ++ [' ']) := blank_append.2 ⟨hr, by decide⟩
    have := not_word_of_blank (by simp) hblank ['{']
    rwa [List.append_assoc] at this
  · simp only [List.append_assoc]

end

section
variable {t statement closer : List Char}

theorem cut_of_split (h : statementAndCloser? t = some (statement, closer)) : Cut statement t := by
  obtain ⟨g, hg, rfl, -, -, hlast, hc⟩ := statementAndCloser?_eq_some_iff.1 h
  refine ⟨hlast, g ++ closer, rfl, fun a ha => ?_⟩
  rcases List.mem_append.1 ha with ha | ha
  · exact .inl (hg a ha)
  · rcases closer_cases hc with rfl | rfl
    · exact .inr (.inl (List.mem_singleton.1 ha))
    · exact .inr (by simpa using ha)

theorem head?_of_split (h : statementAndCloser? t = some (statement, closer)) :
    '{' ∉ t ∧ isCloser t = false ∧ isCloser statement = false ∧ '}' ∉ statement := by
  obtain ⟨g, hg, rfl, hopen, hclose, hlast, hc⟩ := statementAndCloser?_eq_some_iff.1 h
  have hn : statement ≠ [] := by
    rintro rfl
    cases hlast
  obtain ⟨a, u, rfl⟩ := List.exists_cons_of_ne_nil hn
  have ha : a ≠ '}' := fun ha => hclose (ha ▸ List.mem_cons_self ..)
  have hcloser : ∀ u, isCloser (a :: u) = false := by
    intro u
    refine Bool.eq_false_iff.2 fun hu => ha ?_
    rcases closer_cases hu with hu | hu <;> exact (List.cons.inj hu).1
  refine ⟨?_, hcloser _, hcloser _, hclose⟩
  have hg' : '{' ∉ g := hg.not_mem (by decide)
  have hc' : '{' ∉ closer := by rcases closer_cases hc with rfl | rfl <;> decide
  simp only [List.mem_append, not_or]
  exact ⟨hopen, hg', hc'⟩

/-- What is read alike of the whole line is read alike of the statement. -/
theorem readAlike_of_split (h : statementAndCloser? t = some (statement, closer))
    (context : Option BlockKind) (d : List Char) :
    ReadAlike context t d ↔ ReadAlike context statement d := by
  have hcut := cut_of_split h
  have hopener := hcut.opener?
  have hsemicolon : Line.lacksSemicolon t = Line.lacksSemicolon statement := by
    have hmem := hcut.mem
    have hmem' := hcut.isPrefix.subset hmem
    simp [Line.lacksSemicolon, hmem, hmem']
  have hmethod := hcut.startsWith (k := "rpc ".toList) (by decide)
  constructor
  · rintro ⟨ho, hs, hm⟩
    exact ⟨hopener ▸ ho, hsemicolon ▸ hs, hmethod ▸ hm⟩
  · rintro ⟨ho, hs, hm⟩
    exact ⟨hopener ▸ ho, hsemicolon ▸ hs, hmethod ▸ hm⟩

variable {s : State} {n i : Nat}

theorem sound_statement {context : Option BlockKind}
    (h : statementAndCloser? t = some (statement, closer)) (ht : Sound context false t) :
    Sound context false statement := by
  have hcut := cut_of_split h
  obtain ⟨-, hct, hcs, -⟩ := head?_of_split h
  obtain ⟨u, hu⟩ := List.getLast?_eq_some_iff.1 hcut.terminated
  refine ⟨?_, ?_, ?_, ?_, rfl, ?_⟩
  · have hfield : fieldCauses t = [] ↔ fieldCauses statement = [] := by
      rw [fieldCauses_eq_nil_iff, fieldCauses_eq_nil_iff, isField, isField, hct, hcs,
        hcut.isNestedDefinition, hcut.isFieldShaped, hcut.hasTerminatedNumber]
    have hvalue : valueCauses t = [] ↔ valueCauses statement = [] := by
      rw [valueCauses_eq_nil_iff, valueCauses_eq_nil_iff, isEnumValue, isEnumValue, hct, hcs,
        hcut.startsWith (by decide), hcut.startsWith (by decide), hcut.head?,
        hcut.isTerminatedValue]
    have := ht.member
    rwa [memberCauses_eq_nil_iff, hfield, hvalue, ← memberCauses_eq_nil_iff] at this
  · have := ht.method
    rwa [rpcCauses_eq_nil_iff, hcut.startsWith (by decide), hcut.isRpc,
      ← rpcCauses_eq_nil_iff] at this
  · have := ht.version
    rwa [syntaxCauses, hcut.syntaxValue?, ← syntaxCauses] at this
  · rw [hu]
    exact trailingFaults_concat 0 0 u
  · simp [Line.lacksSemicolon, hcut.mem]

/-- What follows a semicolon on its line is a semicolon at the end. -/
theorem closer_of_sound (h : statementAndCloser? t = some (statement, closer))
    (ht : trailingFaults 0 0 t = []) : closer = ['}', ';'] := by
  have hbrace := (head?_of_split h).1
  obtain ⟨g, hg, rfl, -, -, hlast, hc⟩ := statementAndCloser?_eq_some_iff.1 h
  refine (closer_cases hc).resolve_left ?_
  rintro rfl
  obtain ⟨u, rfl⟩ := List.getLast?_eq_some_iff.1 hlast
  have hsemicolon : ';' ∉ g ++ ['}'] := by
    rw [List.mem_append, not_or]
    exact ⟨hg.not_mem (by decide), by decide⟩
  have hafter : afterLastSemicolon (u ++ [';'] ++ (g ++ ['}'])) = g ++ ['}'] := by
    rw [List.append_assoc, List.singleton_append]
    exact afterLastSemicolon_append hsemicolon
  have hcontent : trim (g ++ ['}']) = ['}'] := trim_append_left hg
  have hopen : (u ++ [';'] ++ (g ++ ['}'])).contains '{' = false := by
    rwa [← Bool.not_eq_true, List.contains_iff_mem]
  simp only [trailingFaults, hafter, hcontent, hopen] at ht
  simp [startsWith, after?] at ht

/-- The blocks of a line that is split: the closing brace closes the innermost one. -/
theorem blocks_of_split (h : statementAndCloser? t = some (statement, closer))
    (hfaults : (blocks s n t).faults = []) :
    s.pending = none ∧ opener? t = none ∧ s.stack ≠ [] ∧
      blocks s n t = { stack := s.stack.tail } := by
  obtain ⟨hbrace, -, -, hclose⟩ := head?_of_split h
  have hpending := pending_of_faults hfaults fun hc => hbrace (List.mem_of_head? hc)
  have hcount : t.count '}' = 1 := by
    obtain ⟨g, hg, rfl, -, -, -, hc⟩ := statementAndCloser?_eq_some_iff.1 h
    have hg' : '}' ∉ g := hg.not_mem (by decide)
    rw [List.count_append, List.count_append, List.count_eq_zero.2 hclose,
      List.count_eq_zero.2 hg']
    rcases closer_cases hc with rfl | rfl <;> rfl
  have hnone : opener? t = none := by
    refine Option.eq_none_iff_forall_ne_some.2 fun o ho => ?_
    have hplain := word_or_blank_of_opener ho (isNamed_of_faults hfaults ho)
      (rest_of_faults hfaults ho hbrace)
    exact absurd (hplain '}' (List.count_pos_iff.1 (hcount ▸ Nat.one_pos))) (by decide)
  have hblocks : blocks s n t =
      { stack := s.stack.tail,
        faults := List.replicate (1 - s.stack.length)
          { line := n, cause := .unexpectedClose } } := by
    rw [blocks, settle_of_none hpending, declare_of_none hnone]
    simp [balance, hcount, List.count_eq_zero.2 hbrace]
  rw [hblocks, List.replicate_eq_nil_iff] at hfaults
  have hstack : s.stack ≠ [] := by
    intro hs
    simp [hs] at hfaults
  exact ⟨hpending, hnone, hstack, by rw [hblocks, hfaults]; rfl⟩

theorem scanCode_closer (hpending : s.pending = none) (hstack : s.stack ≠ []) (n i : Nat) :
    scanCode s n i ['}', ';'] = ({ s with stack := s.stack.tail, pending := none }, []) := by
  have htop : s.atTopLevel = false := by simp [State.atTopLevel, hstack]
  have hblocks : blocks s n ['}', ';'] = { stack := s.stack.tail } := by
    have hnone : opener? ['}', ';'] = none := rfl
    have hlength : 1 - s.stack.length = 0 := by
      have := List.length_pos_iff.2 hstack
      omega
    rw [blocks, settle_of_none hpending, declare_of_none hnone]
    simp [balance, hlength]
  have hsound : Sound s.context s.atTopLevel ['}', ';'] := by
    refine ⟨memberCauses_eq_nil_iff.2 ⟨fun _ => by decide, fun _ => by decide⟩,
      rpcCauses_eq_nil_iff.2 fun _ h => absurd h (by decide), by decide, by decide, ?_, by decide⟩
    rw [htop]
    rfl
  refine Prod.ext ?_ (scanCode_eq_nil_iff.2 ⟨hsound, by rw [hblocks]⟩)
  simp only [scanCode, hblocks]

/-- A line that is split and has no faults is scanned as its two parts are. -/
theorem scanCode_split (h : statementAndCloser? t = some (statement, closer))
    (hclean : (scanCode s n i t).2 = []) (m j k l : Nat) :
    scanCode s m j statement = (s, []) ∧ scanCode s k l closer = ((scanCode s n i t).1, []) := by
  obtain ⟨hsound, hfaults⟩ := scanCode_eq_nil_iff.1 hclean
  obtain ⟨hpending, hnone, hstack, hblocks⟩ := blocks_of_split h hfaults
  have htop : s.atTopLevel = false := by simp [State.atTopLevel, hstack]
  obtain ⟨-, -, -, hclose⟩ := head?_of_split h
  have hstatement : blocks s m statement = { stack := s.stack } := by
    have hcut := cut_of_split h
    have hopener : opener? statement = none := by
      have := hcut.opener?
      rw [hnone] at this
      exact Option.not_isSome_iff_eq_none.1 (by simp [← this])
    have hopen : '{' ∉ statement := fun hm => (head?_of_split h).1 (hcut.isPrefix.subset hm)
    rw [blocks, settle_of_none hpending, declare_of_none hopener]
    refine balance_settled ?_ hclose
    rw [List.count_eq_zero.2 hopen]
    exact Nat.zero_le _
  refine ⟨Prod.ext ?_ (scanCode_eq_nil_iff.2 ⟨?_, by rw [hstatement]⟩), ?_⟩
  · simp only [scanCode, hstatement, ← hpending]
  · rw [htop] at hsound ⊢
    exact sound_statement h hsound
  · rw [closer_of_sound h hsound.trailing, scanCode_closer hpending hstack]
    simp only [scanCode, hblocks]

end

section
variable {s : State} {n i : Nat} {keyword : String} {d rest : List Char}

theorem run?_append_of_ne_nil {p : Char → Bool} {s w t : List Char} (h : run? p s = some (w, t))
    (ht : t ≠ []) (u : List Char) : run? p (s ++ u) = some (w, t ++ u) := by
  obtain ⟨hn, htake, hdrop⟩ := run?_eq_some_iff.1 h
  have hlt : ¬ (s.takeWhile p).length = s.length := by
    have := congrArg List.length (List.takeWhile_append_dropWhile (p := p) (l := s))
    rw [List.length_append, hdrop] at this
    have := List.length_pos_iff.2 ht
    omega
  have hdn : s.dropWhile p ≠ [] := hdrop ▸ ht
  refine run?_eq_some_iff.2 ⟨hn, ?_, ?_⟩
  · rw [List.takeWhile_append, if_neg hlt, htake]
  · rw [List.dropWhile_append, hdrop]
    simp [ht]

theorem afterEquals?_append {s t : List Char} (h : afterEquals? s = some t) (ht : t ≠ [])
    (u : List Char) : afterEquals? (s ++ u) = some (t ++ u) := by
  obtain ⟨g, k, hg, hk, hs, rfl⟩ := afterEquals?_eq_some_iff.1 h
  exact afterEquals?_eq_some_iff.2
    ⟨g, k, hg, hk, (startsSolid_append ht).2 hs, by simp only [List.append_assoc, List.cons_append]⟩

theorem assignment?_append {s t : List Char} {a : Assignment} (h : assignment? s = some (a, t))
    (ht : t ≠ []) (u : List Char) : assignment? (s ++ u) = some (a, t ++ u) := by
  obtain ⟨⟨name, r⟩, hn, h⟩ := Option.bind_eq_some_iff.1 h
  obtain ⟨v, hv, h⟩ := Option.bind_eq_some_iff.1 h
  have hdigits : ∀ {w : List Char} {b : List Char → Assignment},
      (digits? w).map (fun x => (b x.1, x.2)) = some (a, t) →
      w ≠ [] ∧ (digits? (w ++ u)).map (fun x => (b x.1, x.2)) = some (a, t ++ u) := by
    intro w b hw
    obtain ⟨x, hx, he⟩ := Option.map_eq_some_iff.1 hw
    cases he
    refine ⟨?_, ?_⟩
    · rintro rfl
      cases hx
    · rw [show digits? (w ++ u) = _ from run?_append_of_ne_nil hx ht u]
      rfl
  have hvn : v ≠ [] := by
    rintro rfl
    cases h
  have hrn : r ≠ [] := by
    rintro rfl
    cases hv
  have hword : word? (s ++ u) = some (name, r ++ u) := run?_append_of_ne_nil hn hrn u
  rw [assignment?, hword, Option.bind_some]
  dsimp only
  rw [afterEquals?_append hv hvn, Option.bind_some]
  split at h
  case h_1 w => exact (hdigits h).2
  case h_2 hdash =>
      obtain ⟨c, w, rfl⟩ := List.exists_cons_of_ne_nil hvn
      split
      case h_1 he =>
          cases he
          exact absurd rfl (hdash w)
      case h_2 => exact (hdigits h).2

/-- A value that ends as it should still does when the line goes on. -/
theorem isTerminatedValue_append (h : isTerminatedValue d) (u : List Char) :
    isTerminatedValue (d ++ u) := by
  obtain ⟨⟨a, t⟩, ha, he⟩ := (Option.any_eq_true _ _).1 h
  have ht : ¬ Blank t := by
    rw [← trimStart_eq_nil_iff]
    intro hn
    dsimp only at he
    rw [hn] at he
    cases he
  have hn : t ≠ [] := by
    rintro rfl
    exact ht .nil
  obtain ⟨b, v, hb⟩ := List.exists_cons_of_ne_nil (mt trimStart_eq_nil_iff.1 ht)
  rw [isTerminatedValue, assignment?_append ha hn, Option.any_some]
  dsimp only at he ⊢
  rw [hb] at he
  rw [trimStart_append_of_not_blank ht, hb]
  exact he

theorem not_field_of_service {context : Option BlockKind} {atTopLevel : Bool}
    (hd : d = BlockKind.service.word.toList ++ ' ' :: rest)
    (hopener : ∀ o, opener? d = some o → o.isNamed ∧ Blank o.rest)
    (h : Sound context atTopLevel d) : ¬ (context = some .message ∨ context = some .oneof) := by
  intro hc
  obtain ⟨o, ho⟩ := Option.isSome_iff_exists.1
    (opener?_keyword (show BlockKind.service ∈ BlockKind.declared by decide) (u := ' ' :: rest)
      fun a ha => by
        cases ha
        exact .inl (by decide))
  rw [← hd] at ho
  obtain ⟨hn, hr⟩ := hopener o ho
  have hplain := word_or_blank_of_opener ho hn hr
  obtain ⟨hk, hname, hword, hrest, g, hgn, hg, he⟩ := opener?_named_iff.1 ⟨ho, hn⟩
  have hsolid : StartsSolid (o.name ++ o.rest) := by
    rw [startsSolid_append hname]
    exact (solid_of_forall fun a ha => isBlank_of_isWord (hword a ha)).1
  have htyped : typedName? d = some (o.name, o.rest) := by
    have htype : afterType? d = some (g ++ (o.name ++ o.rest)) := by
      rw [he]
      refine afterType?_append (isType_word ?_ (word_of_declared _ hk)) (endsType_of_blank hgn hg _)
      cases o.kind <;> decide
    rw [typedName?, htype, Option.bind_some, afterBlanks?_eq_some_iff.2 ⟨g, hgn, hg, hsolid, rfl⟩,
      Option.bind_some, word?_eq_some_iff.2 ⟨hname, hword, hrest, rfl⟩]
  have hfirst : d.takeWhile isWord = BlockKind.service.word.toList :=
    hd ▸ firstWord_keyword (by decide) rest
  have hfield : isField d := by
    have hcloser : isCloser d = false := by
      rw [hd]
      rfl
    have hshaped : isFieldShaped d := by simp [isFieldShaped, htyped]
    rw [isField, hcloser, hshaped, isNestedDefinition, hfirst]
    decide
  have hnumber := fieldCauses_eq_nil_iff.1 ((memberCauses_eq_nil_iff.1 h.member).1 hc) hfield
  exact absurd (hplain '=' (Document.mem_of_hasTerminatedNumber hnumber).1) (by decide)

theorem isTopLevel_braced (hstart : StartsWord d) (hbrace : '{' ∉ d) (h : isTopLevel d) :
    isTopLevel (d ++ " \x7b".toList) := by
  have hall : ∀ k ∈ ["message", "enum", "service", "extend"], k ∈ ["syntax", "package", "import",
      "option", "message", "enum", "service", "extend"] := by
    decide
  rcases exists_of_isTopLevel hstart h with ⟨k, hk, b, u, hb, he⟩ | ⟨k, hk, he | ⟨u, he⟩⟩
  · rw [he, List.append_assoc, List.cons_append]
    exact isTopLevel_keyword_blank hk hb _
  · rw [he]
    exact isTopLevel_keyword_blank (hall k hk) (b := ' ') (by decide) ['{']
  · rw [he] at hbrace
    simp at hbrace

/-- No block keyword is exempt from the check of enum values. -/
theorem isEnumValue_of_block (hk : keyword ∈ blockKeywords) (hstart : StartsWord d)
    (hword : firstWord d = keyword.toList) : isEnumValue d := by
  have hexempt : ∀ k ∈ blockKeywords,
      "option".toList ≠ k.toList ∧ "reserved".toList ≠ k.toList := by decide
  obtain ⟨hoption, hreserved⟩ := hexempt keyword hk
  obtain ⟨a, ha, hw⟩ := hstart
  have hoption : startsWith "option ".toList d = false :=
    startsWith_spaced_eq_false "option".toList (by decide) (by rwa [hword])
  have hreserved : startsWith "reserved ".toList d = false :=
    startsWith_spaced_eq_false "reserved".toList (by decide) (by rwa [hword])
  rw [isEnumValue, isCloser_of_word ⟨a, ha, hw⟩, hoption, hreserved, ha]
  exact hw

/-- An opener that passes the checks without its brace passes them with it. -/
theorem sound_braced {context : Option BlockKind} {atTopLevel : Bool}
    (hk : keyword ∈ blockKeywords) (hd : d = keyword.toList ++ ' ' :: rest) (hbrace : '{' ∉ d)
    (hopener : ∀ o, opener? d = some o → o.isNamed ∧ Blank o.rest)
    (h : Sound context atTopLevel d) : Sound context atTopLevel (d ++ " \x7b".toList) := by
  have hkeyword := (word_of_lineKeyword keyword (mem_lineKeywords_of_block hk)).2
  have hfirst : ∀ u, firstWord (d ++ u) = keyword.toList := by
    intro u
    rw [hd, List.append_assoc]
    exact firstWord_keyword hkeyword _
  have hword : firstWord d = keyword.toList := hd ▸ firstWord_keyword hkeyword rest
  have hstart : StartsWord d := startsWord_of_firstWord (by
    rw [hword]
    exact (word_of_lineKeyword keyword (mem_lineKeywords_of_block hk)).1)
  have hnested : ∀ k ∈ blockKeywords, k ∈ ["message", "enum", "oneof", "extend", "reserved",
      "option", "extensions"] ∨ k = BlockKind.service.word := by
    decide
  have hmem : '{' ∈ d ++ " \x7b".toList := List.mem_append_right _ (by decide)
  have hother : ∀ k ∈ blockKeywords, "rpc".toList ≠ k.toList ∧ "syntax".toList ≠ k.toList := by
    decide
  obtain ⟨hrpc, hsyntax⟩ := hother keyword hk
  refine ⟨memberCauses_eq_nil_iff.2 ⟨fun hc => ?_, fun hc => ?_⟩, ?_, ?_,
    trailingFaults_of_brace 0 0 hmem, topLevelCauses_eq_nil_iff.2 fun htop => ?_, ?_⟩
  · refine fieldCauses_of_not_field ?_
    rcases hnested keyword hk with hk | rfl
    · exact isField_of_nested (hfirst _) hk
    · exact absurd hc (not_field_of_service hd hopener h)
  · exact valueCauses_of_terminated (isTerminatedValue_append
      (valueCauses_eq_nil_iff.1 ((memberCauses_eq_nil_iff.1 h.member).2 hc)
        (isEnumValue_of_block hk hstart hword)) _)
  · exact rpcCauses_of_firstWord context (by rwa [hfirst])
  · exact syntaxCauses_of_firstWord (by rwa [hfirst])
  · exact isTopLevel_braced hstart hbrace (topLevelCauses_eq_nil_iff.1 h.topLevel htop)
  · simp [Line.lacksSemicolon]

theorem count_append_brace (h : '{' ∉ d) : (d ++ " \x7b".toList).count '{' = 1 := by
  rw [List.count_append, List.count_eq_zero.2 h]
  rfl

theorem not_mem_append_brace (h : '}' ∉ d) : '}' ∉ d ++ " \x7b".toList := by
  rw [List.mem_append, not_or]
  exact ⟨h, by decide⟩

/-- An opener waits for the brace below it, and opens its block with a brace of its own. -/
theorem blocks_opener_alone (hpending : s.pending = none) {o : Opener} (ho : opener? d = some o)
    (hn : o.isNamed) (hr : Blank o.rest) (hbrace : '{' ∉ d) (n k : Nat) :
    blocks s n d = { stack := s.stack, pending := some ⟨o.kind, o.name, n⟩ } ∧
      blocks s k (d ++ " \x7b".toList) =
        { stack := ⟨o.kind, o.name, k⟩ :: s.stack, claimed := true } := by
  have hname : o.name ≠ [] := by simpa [Opener.isNamed] using hn
  have hclose : '}' ∉ d := fun hm =>
    absurd (word_or_blank_of_opener ho hn hr _ hm) (by decide)
  have hnone : d.count '{' = 0 := List.count_eq_zero.2 hbrace
  refine ⟨?_, ?_⟩
  · rw [blocks, settle_of_none hpending, declare_of_end ho hname (trim_eq_nil_iff.2 hr) hbrace]
    exact balance_settled (by rw [hnone]; exact Nat.zero_le _) hclose
  · rw [blocks, settle_of_none hpending,
      declare_of_brace (opener?_append_brace ho hn hr) hname (List.mem_append_right _ (by decide))]
    exact balance_settled (Nat.le_of_eq (count_append_brace hbrace)) (not_mem_append_brace hclose)

/-- An extension opens no block, and a plain one with a brace of its own. -/
theorem blocks_extension (hpending : s.pending = none)
    (hd : d = "extend".toList ++ ' ' :: rest) (hbrace : '{' ∉ d) (hclose : '}' ∉ d) (n k : Nat) :
    blocks s n d = { stack := s.stack } ∧
      blocks s k (d ++ " \x7b".toList) = { stack := ⟨.plain, [], k⟩ :: s.stack } := by
  have hnone : ∀ u, opener? (d ++ u) = none := by
    intro u
    refine opener?_eq_none ?_
    rw [hd, List.append_assoc, List.cons_append, firstWord_keyword (by decide)]
    decide
  have hzero : d.count '{' = 0 := List.count_eq_zero.2 hbrace
  refine ⟨?_, ?_⟩
  · rw [blocks, settle_of_none hpending, declare_of_none (List.append_nil d ▸ hnone [])]
    exact balance_settled (by rw [hzero]; exact Nat.zero_le _) hclose
  · rw [blocks, settle_of_none hpending, declare_of_none (hnone _)]
    exact balance_unclaimed (count_append_brace hbrace) rfl (not_mem_append_brace hclose)

/-- An opener and the brace below it are scanned as one line that ends in the brace. -/
theorem scanCode_braced (hk : keyword ∈ blockKeywords) (hd : d = keyword.toList ++ ' ' :: rest)
    (hbrace : '{' ∉ d) (hclose : keyword = "extend" → '}' ∉ d)
    (hclean : (scanCode s n i d).2 = []) (m j k l : Nat) :
    (scanCode s k l (d ++ " \x7b".toList)).2 = [] ∧
      Alike (scanCode (scanCode s n i d).1 m j ['{']).1
        (scanCode s k l (d ++ " \x7b".toList)).1 := by
  obtain ⟨hsound, hfaults⟩ := scanCode_eq_nil_iff.1 hclean
  have hpending := pending_of_faults hfaults fun hc => hbrace (List.mem_of_head? hc)
  have hopener : ∀ o, opener? d = some o → o.isNamed ∧ Blank o.rest := fun o ho =>
    ⟨isNamed_of_faults hfaults ho, rest_of_faults hfaults ho hbrace⟩
  have hsound' := sound_braced hk hd hbrace hopener hsound
  cases ho : opener? d with
  | none =>
      have hextend : keyword = "extend" := by
        have hcases : ∀ k ∈ blockKeywords, k = "extend" ∨
            ∃ kind ∈ BlockKind.declared, kind.word = k := by
          decide
        refine (hcases keyword hk).resolve_right ?_
        rintro ⟨kind, hkind, rfl⟩
        have := opener?_keyword hkind (u := ' ' :: rest) fun a ha => by
          cases ha
          exact .inl (by decide)
        rw [← hd, ho] at this
        cases this
      obtain ⟨hfirst, hjoined⟩ :=
        blocks_extension hpending (hextend ▸ hd) hbrace (hclose hextend) n k
      refine ⟨scanCode_eq_nil_iff.2 ⟨hsound', by rw [hjoined]⟩, ?_⟩
      simp only [scanCode, hfirst, hjoined]
      exact ⟨rfl, rfl, rfl⟩
  | some o =>
      obtain ⟨hn, hr⟩ := hopener o ho
      obtain ⟨hfirst, hjoined⟩ := blocks_opener_alone hpending ho hn hr hbrace n k
      refine ⟨scanCode_eq_nil_iff.2 ⟨hsound', by rw [hjoined]⟩, ?_⟩
      simp only [scanCode, hfirst, hjoined]
      exact ⟨rfl, rfl, rfl⟩

end

end SchemaLint.Structure
