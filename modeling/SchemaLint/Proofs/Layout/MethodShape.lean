import SchemaLint.Proofs.Layout.CodeSpacing

/-! The shape of a method under its normal spacing. A request and a response stand apart in normal
spacing, so a line that has the shape but for white space has it once it is spaced. -/

namespace SchemaLint.Line
open SchemaLint.Text SchemaLint.Layout

/-- What follows an opening parenthesis and the white space before it. -/
def openParens? (s : List Char) : Option (List Char) :=
  after? ['('] (trimStart s)

/-- What follows the first closing parenthesis and the white space after it. -/
def pastParens? (s : List Char) : Option (List Char) :=
  (until? ')' s).map fun r => trimStart r.2

/-- A method with its request and response, whatever its white space. -/
def isLooseRpc (s : List Char) : Bool :=
  let request := (((afterKeyword? ["rpc"] s).bind word?).bind fun r => openParens? r.2).bind
    pastParens?
  let response := (request.bind afterReturns?).bind pastParens?
  response.any fun rest => rest.head?.any fun c => c == ';' || c == '{'

theorem openParens?_compact (s : List Char) :
    openParens? (compact s) = (openParens? s).map fun r => compact (trimStart r) := by
  rw [openParens?, openParens?, trimStart_compact]
  have hs := startsSolid_trimStart s
  cases ht : trimStart s with
  | nil => rfl
  | cons c t =>
      rw [ht, startsSolid_cons] at hs
      by_cases hc : c = '('
      · subst hc
        rw [compact_cons, press_mark (by decide), trimStart_compact]
        rfl
      · obtain ⟨u, hu⟩ := List.head?_eq_some_iff.1 (head?_compact hs t)
        have hnone : ∀ u, after? ['('] (c :: u) = none := fun u => if_neg (Ne.symm hc)
        rw [hu, hnone, hnone]
        rfl

theorem pastParens?_compact (s : List Char) :
    pastParens? (compact s) = (pastParens? s).map compact := by
  rw [pastParens?, pastParens?]
  cases h : until? ')' s with
  | none =>
      rw [until?_eq_none_iff, ← mem_compact (by decide), ← until?_eq_none_iff] at h
      rw [h]
      rfl
  | some r =>
      obtain ⟨a', b', he, hb, -⟩ := until?_compact_of_some (by decide) h
      rw [compact_cons, press_mark (by decide)] at hb
      rw [he, Option.map_some, Option.map_some, Option.map_some, ← (List.cons.inj hb).2,
        (startsSolid_trimStart _).trimStart, trimStart_compact]

theorem pastParens?_trimStart (s : List Char) : pastParens? (trimStart s) = pastParens? s := by
  obtain ⟨g, hg, he⟩ := exists_trimStart s
  have hmark : ')' ∉ g := hg.not_mem (by decide)
  conv_rhs => rw [he]
  rw [pastParens?, pastParens?]
  cases h : until? ')' (trimStart s) with
  | none =>
      have hnone : until? ')' (g ++ trimStart s) = none := by
        rw [until?_eq_none_iff] at h ⊢
        simp [hmark, h]
      rw [hnone]
  | some r =>
      obtain ⟨hf, hr⟩ := until?_eq_some_iff.1 h
      have hsome : until? ')' (g ++ trimStart s) = some (g ++ r.1, r.2) :=
        until?_eq_some_iff.2 ⟨by simp [hmark, hf], by rw [hr, List.append_assoc]⟩
      rw [hsome]
      rfl

theorem afterReturns?_compact (s : List Char) :
    afterReturns? (compact s) = (afterReturns? s).map fun r => compact (trimStart r) := by
  have hfirm : ∀ c ∈ "returns".toList, isFirm c := by decide
  rw [afterReturns?, afterReturns?, trimStart_compact, after?_compact hfirm]
  cases after? "returns".toList (trimStart s) with
  | none => rfl
  | some r => exact openParens?_compact r

theorem afterReturns?_trimStart (s : List Char) :
    afterReturns? (trimStart s) = afterReturns? s := by
  rw [afterReturns?, (startsSolid_trimStart s).trimStart, afterReturns?]

theorem startsSolid_pastParens? {s rest : List Char} (h : pastParens? s = some rest) :
    StartsSolid rest := by
  obtain ⟨r, -, rfl⟩ := Option.map_eq_some_iff.1 h
  exact startsSolid_trimStart r.2

theorem isLooseRpc_compact (s : List Char) : isLooseRpc (compact s) = isLooseRpc s := by
  have hword : (afterKeyword? ["rpc"] (compact s)).bind word? =
      ((afterKeyword? ["rpc"] s).bind word?).map fun r => (r.1, compact r.2) :=
    afterKeyword?_bind_compact word?_compact (fun _ s hm => word?_of_mark hm s)
      (List.forall_mem_singleton.2 (by decide)) s
  rw [isLooseRpc, isLooseRpc, hword]
  cases (afterKeyword? ["rpc"] s).bind word? with
  | none => rfl
  | some r =>
      dsimp only [Option.map_some, Option.bind_some]
      rw [openParens?_compact]
      cases openParens? r.2 with
      | none => rfl
      | some t =>
          dsimp only [Option.map_some, Option.bind_some]
          rw [pastParens?_compact, pastParens?_trimStart]
          cases pastParens? t with
          | none => rfl
          | some u =>
              dsimp only [Option.map_some, Option.bind_some]
              rw [afterReturns?_compact]
              cases afterReturns? u with
              | none => rfl
              | some v =>
                  dsimp only [Option.map_some, Option.bind_some]
                  rw [pastParens?_compact, pastParens?_trimStart]
                  cases hv : pastParens? v with
                  | none => rfl
                  | some w =>
                      dsimp only [Option.map_some, Option.any_some]
                      rw [startsSolid_compact (startsSolid_pastParens? hv)]

/-- What follows the request of a method. -/
def FollowsRequest (s z : List Char) : Prop :=
  ∃ r t a, (afterKeyword? ["rpc"] s).bind word? = some r ∧ openParens? r.2 = some t ∧
    until? ')' t = some (a, z)

/-- A response and what has to follow it. -/
def IsResponse (v : List Char) : Prop :=
  ∃ r, until? ')' v = some r ∧ ∃ c, (trimStart r.2).head? = some c ∧ (c == ';' || c == '{')

theorem afterParens?_eq_some_iff {s q : List Char} :
    afterParens? s = some q ↔ ∃ t a, s = '(' :: t ∧ until? ')' t = some (a, q) := by
  unfold afterParens?
  split
  case h_1 t =>
      rw [Option.map_eq_some_iff]
      constructor
      · rintro ⟨⟨a, q⟩, hu, rfl⟩
        exact ⟨t, a, rfl, hu⟩
      · rintro ⟨t', a, he, hu⟩
        cases he
        exact ⟨_, hu, rfl⟩
  case h_2 hne =>
      constructor
      · intro h
        cases h
      · rintro ⟨t, a, rfl, -⟩
        exact absurd rfl (hne t)

theorem openParens?_eq_some_iff {s t : List Char} :
    openParens? s = some t ↔ trimStart s = '(' :: t :=
  after?_eq_some_iff

/-- A method that has its white space: some on either side of `returns`. -/
theorem isRpc_iff {s : List Char} :
    isRpc s ↔ ∃ g h v, g ≠ [] ∧ Blank g ∧ h ≠ [] ∧ Blank h ∧
      FollowsRequest s (returnsLead g h ++ v) ∧ IsResponse v := by
  simp only [isRpc, Option.any_eq_true, Option.bind_eq_some_iff]
  constructor
  · rintro ⟨rest, ⟨y, ⟨x, ⟨z, ⟨r, hr, hz⟩, hx⟩, hy⟩, hrest⟩, hend⟩
    obtain ⟨t, a, ht, hu⟩ := afterParens?_eq_some_iff.1 hz
    obtain ⟨g, hgn, hg, -, rfl⟩ := afterBlanks?_eq_some_iff.1 hx
    obtain ⟨h, hhn, hh, -, rfl⟩ := afterKeyword?_eq_some_iff.1 hy
    obtain ⟨v, b, rfl, hv⟩ := afterParens?_eq_some_iff.1 hrest
    refine ⟨g, h, v, hgn, hg, hhn, hh, ⟨r, t, a, ?_, openParens?_eq_some_iff.2 ht, ?_⟩,
      (b, rest), hv, hend⟩
    · exact Option.bind_eq_some_iff.2 hr
    · rw [hu]
      simp [returnsLead]
  · rintro ⟨g, h, v, hgn, hg, hhn, hh, ⟨r, t, a, hr, ht, hu⟩, ⟨b, rest⟩, hv, hend⟩
    have hsolid : StartsSolid ("returns".toList ++ (h ++ '(' :: v)) :=
      (startsSolid_append (by decide)).2 (by decide)
    have hparen : StartsSolid ('(' :: v) := startsSolid_cons.2 (by decide)
    refine ⟨rest, ⟨_, ⟨_, ⟨_, ⟨r, Option.bind_eq_some_iff.1 hr,
      afterParens?_eq_some_iff.2 ⟨t, a, openParens?_eq_some_iff.1 ht, hu⟩⟩,
      afterBlanks?_eq_some_iff.2 ⟨g, hgn, hg, hsolid, ?_⟩⟩,
      afterKeyword?_eq_some_iff.2 ⟨h, hhn, hh, hparen, rfl⟩⟩,
      afterParens?_eq_some_iff.2 ⟨v, b, rfl, hv⟩⟩, hend⟩
    simp [returnsLead]

theorem isLooseRpc_iff {s : List Char} :
    isLooseRpc s ↔ ∃ g h v, Blank g ∧ Blank h ∧
      FollowsRequest s (returnsLead g h ++ v) ∧ IsResponse v := by
  simp only [isLooseRpc, Option.any_eq_true, Option.bind_eq_some_iff, pastParens?,
    Option.map_eq_some_iff]
  constructor
  · rintro ⟨rest, ⟨v, ⟨z, ⟨t, ⟨r, hr, ht⟩, q, hq, rfl⟩, hv⟩, p, hp, rfl⟩, hend⟩
    rw [afterReturns?_trimStart] at hv
    obtain ⟨g, h, hg, hh, he⟩ := afterReturns?_iff.1 hv
    refine ⟨g, h, v, hg, hh, ⟨r, t, q.1, Option.bind_eq_some_iff.2 hr, ht, ?_⟩, p, hp, hend⟩
    rw [← he]
    exact hq
  · rintro ⟨g, h, v, hg, hh, ⟨r, t, a, hr, ht, hu⟩, p, hp, hend⟩
    refine ⟨_, ⟨v, ⟨_, ⟨t, ⟨r, Option.bind_eq_some_iff.1 hr, ht⟩, _, hu, rfl⟩, ?_⟩, p, hp, rfl⟩,
      hend⟩
    rw [afterReturns?_trimStart]
    exact afterReturns?_iff.2 ⟨g, h, hg, hh, rfl⟩

theorem isLooseRpc_of_isRpc {s : List Char} (h : isRpc s) : isLooseRpc s := by
  obtain ⟨g, k, v, -, hg, -, hk, hz, hv⟩ := isRpc_iff.1 h
  exact isLooseRpc_iff.2 ⟨g, k, v, hg, hk, hz, hv⟩

/-- What follows the request follows a closing parenthesis of the line. -/
theorem FollowsRequest.suffix {s z : List Char} (h : FollowsRequest s z) : ')' :: z <:+ s := by
  obtain ⟨r, t, a, hr, ht, hu⟩ := h
  obtain ⟨x, hx, hw⟩ := Option.bind_eq_some_iff.1 hr
  obtain ⟨g, -, -, -, he⟩ := afterKeyword?_eq_some_iff.1 hx
  obtain ⟨k, -, hk⟩ := exists_trimStart r.2
  have hword : x = r.1 ++ r.2 := run?_append hw
  rw [openParens?_eq_some_iff.1 ht, (until?_eq_some_iff.1 hu).2] at hk
  refine ⟨"rpc".toList ++ (g ++ (r.1 ++ (k ++ '(' :: a))), ?_⟩
  rw [he, hword, hk]
  simp

/-- After each closing parenthesis, `returns` stands between single spaces. -/
def Spread (s : List Char) : Prop :=
  ∀ z v, ')' :: z <:+ s → afterReturns? z = some v → z = returnsLead [' '] [' '] ++ v

theorem isRpc_of_spread {s : List Char} (hs : Spread s) (h : isLooseRpc s) : isRpc s := by
  obtain ⟨g, k, v, hg, hk, hz, hv⟩ := isLooseRpc_iff.1 h
  have he := hs _ v hz.suffix (afterReturns?_iff.2 ⟨g, k, hg, hk, rfl⟩)
  rw [he] at hz
  exact isRpc_iff.2 ⟨[' '], [' '], v, by simp, by decide, by simp, by decide, hz, hv⟩

theorem Spread.of_isSuffix {s t : List Char} (h : Spread s) (ht : t <:+ s) : Spread t :=
  fun z v hz hv => h z v (hz.trans ht) hv

theorem Spread.of_isPrefix {s t : List Char} (h : Spread s) (ht : t <+: s) : Spread t := by
  obtain ⟨k, rfl⟩ := ht
  intro z v ⟨p, hp⟩ hv
  obtain ⟨g, l, hg, hl, he⟩ := afterReturns?_iff.1 hv
  have hmore : afterReturns? (z ++ k) = some (v ++ k) :=
    afterReturns?_iff.2 ⟨g, l, hg, hl, by rw [he, List.append_assoc]⟩
  have hz := h (z ++ k) (v ++ k) ⟨p, by rw [← hp]; simp⟩ hmore
  rw [← List.append_assoc] at hz
  exact List.append_cancel_right hz

theorem Spread.trim {s : List Char} (h : Spread s) : Spread (trim s) :=
  (h.of_isSuffix (List.dropWhile_suffix _)).of_isPrefix (trimEnd_isPrefix _)

theorem Spread.code {s : List Char} (h : Spread s) : Spread (code s) :=
  (h.of_isPrefix (beforeComment_isPrefix s)).trim

theorem Spread.cons {s : List Char} (h : Spread s) {c : Char} (hc : c ≠ ')') :
    Spread (c :: s) := by
  intro z v hz hv
  rcases List.suffix_cons_iff.1 hz with he | hz
  · exact absurd (List.cons.inj he).1.symm hc
  · exact h z v hz hv

theorem Spread.placeClosing {s : List Char} (h : Spread s) : Spread (placeClosing s) := by
  unfold Layout.placeClosing
  split
  case h_1 inner hi =>
      obtain ⟨g, k, -, -, rfl⟩ := afterReturns?_iff.1 hi
      have hinner : Spread inner := h.of_isSuffix (List.suffix_append _ _)
      have hlead : Spread (returnsLead [' '] [' '] ++ inner) :=
        ((((((((((hinner.cons (c := '(') (by decide)).cons (c := ' ') (by decide)).cons
          (c := 's') (by decide)).cons (c := 'n') (by decide)).cons (c := 'r') (by decide)).cons
          (c := 'u') (by decide)).cons (c := 't') (by decide)).cons (c := 'e') (by decide)).cons
          (c := 'r') (by decide)).cons (c := ' ') (by decide))
      intro z v hz hv
      rcases List.suffix_cons_iff.1 hz with he | hz
      · have he : z = returnsLead [' '] [' '] ++ inner := (List.cons.inj he).2
        have hi := afterReturns?_iff.2 ⟨[' '], [' '], by decide, by decide, he⟩
        rw [hv] at hi
        cases hi
        exact he
      · exact hlead z v hz hv
  case h_2 hnone =>
      intro z v hz hv
      rcases List.suffix_cons_iff.1 hz with he | hz
      · rw [(List.cons.inj he).2, hnone] at hv
        cases hv
      · exact h z v hz hv

theorem Spread.placeInMethod {s : List Char} (h : Spread s) (c : Char) :
    Spread (placeInMethod c s) := by
  unfold Layout.placeInMethod
  split
  · exact h
  · split
    · exact h.placeClosing
    case isFalse hc => exact h.cons hc

theorem spread_spaceMethod {s : List Char} (hs : EndsSolid s) : Spread (spaceMethod s) := by
  match s with
  | [] => exact fun z v hz _ => absurd (List.suffix_nil.1 hz) (by simp)
  | c :: s =>
      by_cases hn : s = []
      · have hc : isBlank c = false := by
          rw [hn] at hs
          exact endsSolid_concat (s := []).1 hs
        have hnil : Spread [] := fun z v hz _ => absurd (List.suffix_nil.1 hz) (by simp)
        rw [hn, spaceMethod_singleton hc]
        split
        · exact (hnil.cons (c := '{') (by decide)).cons (c := ' ') (by decide)
        · by_cases hp : c = ')'
          · rw [hp]
            exact hnil.placeClosing
          · exact hnil.cons hp
      · have hss := hs.of_cons
        have hlt : (trimStart s).length ≤ s.length := (List.dropWhile_suffix _).length_le
        rw [spaceMethod_cons hn hss]
        split
        case isTrue => exact (spread_spaceMethod hss.trimStart).placeInMethod c
        case isFalse => exact (spread_spaceMethod hss).placeInMethod c
termination_by s.length
decreasing_by all_goals (simp only [List.length_cons]; omega)

theorem isRpc_code_spaced {t : List Char} (ht : trim t = t) (hnl : '\n' ∉ t)
    (h : isLooseRpc (code t)) : isRpc (code (spaced t)) := by
  have hloose : isLooseRpc (code (spaced t)) := by
    rwa [← isLooseRpc_compact, compact_code_spaced hnl, isLooseRpc_compact]
  refine isRpc_of_spread ?_ hloose
  obtain ⟨g, k, v, -, -, ⟨r, -, -, hr, -⟩, -⟩ := isLooseRpc_iff.1 h
  obtain ⟨x, hx, -⟩ := Option.bind_eq_some_iff.1 hr
  obtain ⟨b, u, hb, hu⟩ := afterKeyword?_isSome_iff.1 (Option.isSome_of_eq_some hx)
  obtain ⟨z, hz⟩ := code_isPrefix (trim_eq_self_iff.1 ht).1
  rw [hu, List.append_assoc, List.cons_append] at hz
  obtain ⟨l, hl, hlz⟩ := exists_trimStart (u ++ z)
  obtain ⟨hn, hs⟩ := endsSolid_rest (g := b :: l) (hz ▸ ht) (List.cons_ne_nil b l)
    (blank_cons.2 ⟨hb, hl⟩) (by rw [List.cons_append, ← hlz])
  have hread : (readLine t).2 = spaceRpc (trimStart (u ++ z)) := by
    rw [← hz, readLine_rpc hb]
  rw [code_spaced hnl, hread, spaceRpc_eq]
  exact (spread_spaceMethod (endsSolid_spaceKeyword hn hs)).code

end SchemaLint.Line
