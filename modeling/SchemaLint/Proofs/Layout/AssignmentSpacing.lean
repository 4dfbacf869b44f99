import SchemaLint.Proofs.Layout.Start
import SchemaLint.Proofs.Line.Assignment

/-! The spacing of fields and enum values. It changes a line at the first equals sign and at the
first semicolon with white space before it, and a line that is a field stays one. -/

namespace SchemaLint.Layout
open SchemaLint.Text SchemaLint.Line

theorem trimStart_head?_append {s : List Char} (h : ¬ Blank s) (t : List Char) :
    (trimStart (s ++ t)).head? = (trimStart s).head? := by
  rw [trimStart_append_of_not_blank h,
    List.head?_append_of_ne_nil _ (fun he => h (trimStart_eq_nil_iff.1 he))]

theorem tightenFirstSemicolon_cons (c : Char) (s : List Char) :
    tightenFirstSemicolon (c :: s) =
      if isBlank c && (trimStart s).head? = some ';' then trimStart s
      else c :: tightenFirstSemicolon s := rfl

theorem tightenFirstSemicolon_eq_self {s : List Char} (h : ';' ∉ s) :
    tightenFirstSemicolon s = s := by
  induction s with
  | nil => rfl
  | cons c s ih =>
      simp only [List.mem_cons, not_or] at h
      have hs : (trimStart s).head? ≠ some ';' := fun hh =>
        h.2 ((List.dropWhile_suffix isBlank).subset (List.mem_of_head? hh))
      rw [tightenFirstSemicolon_cons, decide_eq_false hs, Bool.and_false,
        if_neg Bool.false_ne_true, ih h.2]

/-- A semicolon is tightened before a solid character, or after it if there is none to tighten. -/
theorem tightenFirstSemicolon_append_cons {x : Char} (hx : isBlank x = false) (hm : x ≠ ';')
    (s t : List Char) :
    tightenFirstSemicolon (s ++ x :: t) = tightenFirstSemicolon s ++
      x :: if tightenFirstSemicolon s = s then tightenFirstSemicolon t else t := by
  induction s with
  | nil =>
      rw [List.nil_append, tightenFirstSemicolon_cons, hx, Bool.false_and,
        if_neg Bool.false_ne_true]
      rfl
  | cons c s ih =>
      have hhead : (trimStart (s ++ x :: t)).head? = some ';' ↔
          (trimStart s).head? = some ';' := by
        by_cases hb : Blank s
        · rw [trimStart_append hb, (startsSolid_cons.2 hx).trimStart, trimStart_eq_nil_iff.2 hb]
          simp [hm]
        · rw [trimStart_head?_append hb]
      rw [List.cons_append, tightenFirstSemicolon_cons, tightenFirstSemicolon_cons]
      simp only [hhead]
      split
      case isTrue h =>
          rw [Bool.and_eq_true, decide_eq_true_eq] at h
          have hb : ¬ Blank s := fun hb => by
            rw [trimStart_eq_nil_iff.2 hb] at h
            cases h.2
          have hshort : trimStart s ≠ c :: s := fun he => by
            have hlength := (List.dropWhile_suffix (l := s) isBlank).length_le
            rw [← trimStart, he, List.length_cons] at hlength
            omega
          rw [if_neg hshort, trimStart_append_of_not_blank hb]
      case isFalse =>
          rw [ih, List.cons_append]
          simp only [List.cons.injEq, true_and]

theorem tightenFirstSemicolon_append {s : List Char} (hm : ';' ∉ s) (hs : EndsSolid s)
    (t : List Char) : tightenFirstSemicolon (s ++ t) = s ++ tightenFirstSemicolon t := by
  induction s with
  | nil => rfl
  | cons c s ih =>
      simp only [List.mem_cons, not_or] at hm
      have hcond : (isBlank c && (trimStart (s ++ t)).head? = some ';') = false := by
        by_cases hn : s = []
        · subst hn
          rw [show isBlank c = false from endsSolid_concat (s := []).1 hs, Bool.false_and]
        · have hb := not_blank_of_endsSolid hn hs.of_cons
          rw [trimStart_head?_append hb]
          have : (trimStart s).head? ≠ some ';' := fun hh =>
            hm.2 ((List.dropWhile_suffix isBlank).subset (List.mem_of_head? hh))
          rw [decide_eq_false this, Bool.and_false]
      rw [List.cons_append, tightenFirstSemicolon_cons, hcond, if_neg Bool.false_ne_true,
        ih hm.2 hs.of_cons, List.cons_append]

theorem tightenFirstSemicolon_ne_nil {s : List Char} (h : s ≠ []) :
    tightenFirstSemicolon s ≠ [] := by
  cases s with
  | nil => exact absurd rfl h
  | cons c s =>
      rw [tightenFirstSemicolon_cons]
      split
      case isTrue hh =>
          rw [Bool.and_eq_true, decide_eq_true_eq] at hh
          rintro he
          rw [he] at hh
          cases hh.2
      case isFalse => simp

theorem endsSolid_tightenFirstSemicolon {s : List Char} (h : EndsSolid s) :
    EndsSolid (tightenFirstSemicolon s) := by
  induction s with
  | nil => exact h
  | cons c s ih =>
      rw [tightenFirstSemicolon_cons]
      split
      case isTrue => exact h.of_cons.trimStart
      case isFalse =>
          by_cases hn : s = []
          · rwa [hn] at h ⊢
          · exact (endsSolid_append (s := [c]) (tightenFirstSemicolon_ne_nil hn)).2 (ih h.of_cons)

theorem until?_of_not_mem {m : Char} {s : List Char} (h : m ∉ s) : until? m s = none := by
  apply Option.eq_none_iff_forall_ne_some.2
  intro r hr
  obtain ⟨front, rest⟩ := r
  obtain ⟨-, he⟩ := until?_eq_some_iff.1 hr
  exact h (he ▸ by simp)

theorem spaceEquals_eq_self {s : List Char} (h : '=' ∉ s) : spaceEquals s = s := by
  rw [spaceEquals, until?_of_not_mem h]

theorem spaceEquals_of_mem {s t : List Char} (h : '=' ∉ s) :
    spaceEquals (s ++ '=' :: t) = trimEnd s ++ " = ".toList ++ trimStart t := by
  rw [spaceEquals, until?_eq_some_iff.2 ⟨h, rfl⟩]

theorem no_mark_of_word {s : List Char} (h : ∀ c ∈ s, isWord c) : '=' ∉ s ∧ ';' ∉ s :=
  ⟨fun hm => absurd (h _ hm) (by decide), fun hm => absurd (h _ hm) (by decide)⟩

theorem no_mark_of_blank {s : List Char} (h : Blank s) : '=' ∉ s ∧ ';' ∉ s :=
  ⟨h.not_mem (by decide), h.not_mem (by decide)⟩

theorem spaceEquals_append {s g h t : List Char} (hm : '=' ∉ s) (hs : EndsSolid s) (hg : Blank g)
    (hh : Blank h) (ht : StartsSolid t) :
    spaceEquals (s ++ (g ++ '=' :: (h ++ t))) = s ++ (" = ".toList ++ t) := by
  have hmg : '=' ∉ s ++ g := by
    rw [List.mem_append, not_or]
    exact ⟨hm, (no_mark_of_blank hg).1⟩
  rw [← List.append_assoc, spaceEquals_of_mem hmg, trimEnd_append hg, hs.trimEnd,
    trimStart_append hh, ht.trimStart, List.append_assoc]

/-- An equals sign is spaced before a solid character, or after it if there is none before. -/
theorem spaceEquals_append_cons {x : Char} (hx : isBlank x = false) (hm : x ≠ '=')
    (s t : List Char) :
    spaceEquals (s ++ x :: t) =
      spaceEquals s ++ x :: if '=' ∈ s then t else spaceEquals t := by
  by_cases hs : '=' ∈ s
  · obtain ⟨f, r, rfl, hf⟩ := List.eq_append_cons_of_mem hs
    have ht : trimStart (r ++ x :: t) = trimStart r ++ x :: t := by
      by_cases hb : Blank r
      · rw [trimStart_append hb, (startsSolid_cons.2 hx).trimStart, trimStart_eq_nil_iff.2 hb,
          List.nil_append]
      · exact trimStart_append_of_not_blank hb _
    rw [if_pos (by simp), List.append_assoc, List.cons_append, spaceEquals_of_mem hf,
      spaceEquals_of_mem hf, ht, ← List.append_assoc]
  · rw [if_neg hs, spaceEquals_eq_self hs]
    by_cases ht : '=' ∈ t
    · obtain ⟨f, r, rfl, hf⟩ := List.eq_append_cons_of_mem ht
      have hsx : '=' ∉ s ++ x :: f := by simp [hs, hf, hm.symm]
      have he : trimEnd (s ++ x :: f) = s ++ x :: trimEnd f := by
        have := trimEnd_append_of_solid (s := s ++ [x]) (endsSolid_concat.2 hx) f
        simpa only [List.append_assoc, List.singleton_append] using this
      rw [show s ++ x :: (f ++ '=' :: r) = (s ++ x :: f) ++ '=' :: r by simp,
        spaceEquals_of_mem hsx, spaceEquals_of_mem hf, he]
      simp
    · have hsx : '=' ∉ s ++ x :: t := by simp [hs, ht, hm.symm]
      rw [spaceEquals_eq_self ht, spaceEquals_eq_self hsx]

/-- The spacing of a text that stands behind another: each rule acts on it if it had nothing to act
on before. -/
def spaceAssignmentAfter (s t : List Char) : List Char :=
  let u := if '=' ∈ s then t else spaceEquals t
  if spaceAssignment s = spaceEquals s then tightenFirstSemicolon u else u

theorem spaceAssignmentAfter_cases (s t : List Char) :
    spaceAssignmentAfter s t = t ∨ spaceAssignmentAfter s t = spaceEquals t ∨
      spaceAssignmentAfter s t = tightenFirstSemicolon t ∨
      spaceAssignmentAfter s t = spaceAssignment t := by
  unfold spaceAssignmentAfter
  by_cases he : '=' ∈ s <;> by_cases hs : spaceAssignment s = spaceEquals s
  · exact .inr (.inr (.inl (by rw [if_pos he, if_pos hs])))
  · exact .inl (by rw [if_pos he, if_neg hs])
  · exact .inr (.inr (.inr (by rw [if_neg he, if_pos hs, spaceAssignment])))
  · exact .inr (.inl (by rw [if_neg he, if_neg hs]))

/-- The spacing acts on the two sides of a solid character each on its own. -/
theorem spaceAssignment_append_cons {x : Char} (hx : isBlank x = false) (hm : x ≠ '=')
    (hm' : x ≠ ';') (s t : List Char) :
    spaceAssignment (s ++ x :: t) = spaceAssignment s ++ x :: spaceAssignmentAfter s t := by
  rw [spaceAssignment.eq_1 (s ++ x :: t), spaceEquals_append_cons hx hm,
    tightenFirstSemicolon_append_cons hx hm']
  rfl

/-- A name with a number assigned, in normal spacing up to the number. -/
theorem spaceAssignment_append {s g h t u : List Char} (hm : '=' ∉ s) (hm' : ';' ∉ s)
    (hs : EndsSolid s) (hg : Blank g) (hh : Blank h) (ht : StartsSolid t) (hn : t ≠ [])
    (hte : EndsSolid t) (htm : ';' ∉ t) :
    spaceAssignment (s ++ (g ++ '=' :: (h ++ (t ++ u)))) =
      s ++ (" = ".toList ++ (t ++ tightenFirstSemicolon u)) := by
  have htu : StartsSolid (t ++ u) := (startsSolid_append hn).2 ht
  have hp : ';' ∉ s ++ (" = ".toList ++ t) := by
    simp only [List.mem_append, not_or]
    exact ⟨hm', by decide, htm⟩
  have he : EndsSolid (s ++ (" = ".toList ++ t)) := by
    rw [← List.append_assoc]
    exact (endsSolid_append hn).2 hte
  rw [spaceAssignment, spaceEquals_append hm hs hg hh htu]
  have := tightenFirstSemicolon_append hp he u
  simpa only [List.append_assoc] using this

/-- A field to which a number is assigned, cut before and after its type and its name. -/
structure IsNumbered (pre type gap name rest : List Char) : Prop where
  label : pre = [] ∨ ∃ label ∈ fieldLabels, ∃ g, g ≠ [] ∧ Blank g ∧ pre = label.toList ++ g
  isType : IsType type
  gapNonempty : gap ≠ []
  gapBlank : Blank gap
  nameNonempty : name ≠ []
  nameWord : ∀ c ∈ name, isWord c
  assigns : AssignsNumber rest

theorem IsNumbered.endsSolid_iff {pre type gap name rest : List Char}
    (h : IsNumbered pre type gap name rest) :
    EndsSolid (pre ++ (type ++ (gap ++ (name ++ rest)))) ↔ EndsSolid rest := by
  have hn := h.assigns.ne_nil
  rw [endsSolid_append (by simp [hn]), endsSolid_append (by simp [hn]),
    endsSolid_append (by simp [hn]), endsSolid_append hn]

theorem startsSolid_type {type : List Char} (h : IsType type) (t : List Char) :
    StartsSolid (type ++ t) := by
  cases h with
  | path hc hp =>
      cases type with
      | nil => simp at hp
      | cons c type =>
          rw [List.cons_append, startsSolid_cons]
          rcases Bool.or_eq_true_iff.1 (hc c (List.mem_cons_self ..)) with hw | hd
          · exact isBlank_of_isWord hw
          · rw [beq_iff_eq.1 hd]
            decide
  | map => exact startsSolid_cons.2 (by decide)

theorem fieldName?_isSome_iff {s : List Char} :
    (fieldName? s).isSome ↔ ∃ pre type gap name rest, IsNumbered pre type gap name rest ∧
      s = pre ++ (type ++ (gap ++ (name ++ rest))) := by
  constructor
  · intro h
    obtain ⟨name, h⟩ := Option.isSome_iff_exists.1 h
    rcases Option.or_eq_some_iff.1 h with h | ⟨-, h⟩
    · obtain ⟨u, hu, hname⟩ := Option.bind_eq_some_iff.1 h
      obtain ⟨type, gap, rest, hty, hgn, hgb, hnn, hnw, hr, rfl⟩ :=
        numberedName?_eq_some_iff.1 hname
      obtain ⟨label, hl, g, hn, hg, -, rfl⟩ := afterLabel?_eq_some_iff.1 hu
      exact ⟨label.toList ++ g, type, gap, name, rest,
        ⟨.inr ⟨label, hl, g, hn, hg, rfl⟩, hty, hgn, hgb, hnn, hnw, hr⟩,
        (List.append_assoc ..).symm⟩
    · obtain ⟨type, gap, rest, hty, hgn, hgb, hnn, hnw, hr, rfl⟩ := numberedName?_eq_some_iff.1 h
      exact ⟨[], type, gap, name, rest, ⟨.inl rfl, hty, hgn, hgb, hnn, hnw, hr⟩, rfl⟩
  · rintro ⟨pre, type, gap, name, rest, h, rfl⟩
    have hnumbered := numberedName?_eq_some_iff.2 ⟨type, gap, rest, h.isType, h.gapNonempty,
      h.gapBlank, h.nameNonempty, h.nameWord, h.assigns, rfl⟩
    rw [fieldName?, Option.isSome_or, Bool.or_eq_true]
    rcases h.label with rfl | ⟨label, hl, g, hn, hg, rfl⟩
    · exact .inr (by rw [List.nil_append, hnumbered]; rfl)
    · have hs := startsSolid_type h.isType (gap ++ (name ++ rest))
      have := afterLabel?_eq_some_iff.2 ⟨label, hl, g, hn, hg, hs, rfl⟩
      exact .inl (by rw [List.append_assoc, this, Option.bind_some, hnumbered]; rfl)

theorem assignsNumber_spaceEquals {s rest : List Char} (hm : '=' ∉ s) (hs : EndsSolid s)
    (h : AssignsNumber rest) : ∃ rest', AssignsNumber rest' ∧
      (EndsSolid rest → EndsSolid rest') ∧ spaceEquals (s ++ rest) = s ++ rest' := by
  obtain ⟨g, k, c, z, hg, hk, hc, rfl⟩ := h
  refine ⟨" = ".toList ++ c :: z, ⟨[' '], [' '], c, z, by decide, by decide, hc, rfl⟩, ?_,
    spaceEquals_append hm hs hg hk (startsSolid_cons.2 (isBlank_of_isDigit hc))⟩
  intro he
  rw [endsSolid_append (by simp), ← List.singleton_append, endsSolid_append (by simp),
    endsSolid_append (by simp)] at he
  rwa [endsSolid_append (by simp)]

theorem assignsNumber_tightenFirstSemicolon {s rest : List Char} (hm : ';' ∉ s)
    (h : AssignsNumber rest) : ∃ rest', AssignsNumber rest' ∧
      (EndsSolid rest → EndsSolid rest') ∧ tightenFirstSemicolon (s ++ rest) = s ++ rest' := by
  obtain ⟨g, k, c, z, hg, hk, hc, rfl⟩ := h
  have hcm : c ≠ ';' := by
    rintro rfl
    exact absurd hc (by decide)
  have hp : ';' ∉ s ++ (g ++ '=' :: (k ++ [c])) := by
    simp [hm, (no_mark_of_blank hg).2, (no_mark_of_blank hk).2, hcm.symm]
  have hps : EndsSolid (s ++ (g ++ '=' :: (k ++ [c]))) := by
    have : s ++ (g ++ '=' :: (k ++ [c])) = (s ++ (g ++ '=' :: k)) ++ [c] := by simp
    rw [this]
    exact endsSolid_concat.2 (isBlank_of_isDigit hc)
  refine ⟨g ++ '=' :: (k ++ c :: tightenFirstSemicolon z),
    ⟨g, k, c, _, hg, hk, hc, rfl⟩, ?_, ?_⟩
  · intro he
    by_cases hz : z = []
    · rw [hz] at he ⊢
      exact he
    · have hzs : EndsSolid z := by
        have : g ++ '=' :: (k ++ c :: z) = (g ++ '=' :: (k ++ [c])) ++ z := by simp
        rwa [this, endsSolid_append hz] at he
      have : g ++ '=' :: (k ++ c :: tightenFirstSemicolon z) =
          (g ++ '=' :: (k ++ [c])) ++ tightenFirstSemicolon z := by simp
      rw [this, endsSolid_append (tightenFirstSemicolon_ne_nil hz)]
      exact endsSolid_tightenFirstSemicolon hzs
  · have := tightenFirstSemicolon_append hp hps z
    simpa using this

theorem no_mark_of_label {pre : List Char} (h : pre = [] ∨ ∃ label ∈ fieldLabels, ∃ g, g ≠ [] ∧
    Blank g ∧ pre = label.toList ++ g) : '=' ∉ pre ∧ ';' ∉ pre := by
  rcases h with rfl | ⟨label, hl, g, -, hg, rfl⟩
  · simp
  · have hlabel := no_mark_of_word (word_of_fieldLabel label hl)
    have hgap := no_mark_of_blank hg
    simp only [List.mem_append, not_or]
    exact ⟨⟨hlabel.1, hgap.1⟩, ⟨hlabel.2, hgap.2⟩⟩

theorem spaceAssignment_eq_self {s : List Char} (h : '=' ∉ s ∧ ';' ∉ s) :
    spaceAssignment s = s := by
  rw [spaceAssignment, spaceEquals_eq_self h.1, tightenFirstSemicolon_eq_self h.2]

theorem spaceEquals_ne_nil {s : List Char} (hn : s ≠ []) : spaceEquals s ≠ [] := by
  by_cases hm : '=' ∈ s
  · obtain ⟨f, r, rfl, hf⟩ := List.eq_append_cons_of_mem hm
    rw [spaceEquals_of_mem hf]
    simp
  · rwa [spaceEquals_eq_self hm]

/-- What a map type holds stays a text without the closing mark. -/
theorem spaceAssignmentAfter_inner (pre : List Char) {inner : List Char} (hn : inner ≠ [])
    (hi : '>' ∉ inner) :
    spaceAssignmentAfter pre inner ≠ [] ∧ '>' ∉ spaceAssignmentAfter pre inner := by
  have hops := spaceAssignmentAfter_cases pre inner
  generalize spaceAssignmentAfter pre inner = inner' at hops
  have hinner : inner' ≠ [] ∧ Respaced false inner inner' := by
    rcases hops with rfl | rfl | rfl | rfl
    · exact ⟨hn, .refl _⟩
    · exact ⟨spaceEquals_ne_nil hn, respaced_spaceEquals _⟩
    · exact ⟨tightenFirstSemicolon_ne_nil hn, respaced_tightenFirstSemicolon _⟩
    · exact ⟨tightenFirstSemicolon_ne_nil (spaceEquals_ne_nil hn), respaced_spaceAssignment _⟩
  have mem_ink : ∀ {t : List Char}, '>' ∈ t ↔ '>' ∈ ink t := by
    intro t
    have hb : isBlank '>' = false := by decide
    rw [ink, List.mem_filter, hb]
    simp
  refine ⟨hinner.1, ?_⟩
  rwa [mem_ink, ← hinner.2.ink, ← mem_ink]

theorem no_mark_of_path {path : List Char} (h : ∀ c ∈ path, isWord c || c == '.') :
    ∀ c ∈ path, isBlank c = false ∧ c ≠ '=' ∧ c ≠ ';' := by
  intro c hm
  rcases Bool.or_eq_true_iff.1 (h c hm) with hw | hd
  · refine ⟨isBlank_of_isWord hw, ?_, ?_⟩ <;> rintro rfl <;> exact absurd hw (by decide)
  · rw [beq_iff_eq.1 hd]
    decide

/-- The part of a line from its type on ends solidly, and its spacing leaves a type. -/
theorem exists_spaceAssignment_type {pre type : List Char} (hpre : '=' ∉ pre ∧ ';' ∉ pre)
    (h : IsType type) :
    ∃ init x init', type = init ++ [x] ∧ isBlank x = false ∧ x ≠ '=' ∧ x ≠ ';' ∧
      spaceAssignment (pre ++ init) = pre ++ init' ∧ IsType (init' ++ [x]) ∧
      (init' = init ∨ "map<".toList <+: init ∧ "map<".toList <+: init') := by
  cases h with
  | path hc hp =>
      have hn : type ≠ [] := by
        rintro rfl
        simp at hp
      obtain ⟨init, x, rfl⟩ : ∃ init x, type = init ++ [x] :=
        ⟨_, _, (List.dropLast_append_getLast hn).symm⟩
      have hall := no_mark_of_path hc
      obtain ⟨hb, he, hs⟩ := hall x (by simp)
      have hinit : '=' ∉ init ∧ ';' ∉ init :=
        ⟨fun hm => (hall _ (by simp [hm])).2.1 rfl, fun hm => (hall _ (by simp [hm])).2.2 rfl⟩
      refine ⟨init, x, init, rfl, hb, he, hs, spaceAssignment_eq_self ?_, .path hc hp, .inl rfl⟩
      simp only [List.mem_append, not_or]
      exact ⟨⟨hpre.1, hinit.1⟩, ⟨hpre.2, hinit.2⟩⟩
  | @map inner hn hi =>
      obtain ⟨hn', hi'⟩ := spaceAssignmentAfter_inner (pre ++ "map".toList) hn hi
      have he := spaceAssignment_append_cons (x := '<') (by decide) (by decide) (by decide)
        (pre ++ "map".toList) inner
      generalize spaceAssignmentAfter (pre ++ "map".toList) inner = inner' at hn' hi' he
      have hpm : '=' ∉ pre ++ "map".toList ∧ ';' ∉ pre ++ "map".toList := by
        simp only [List.mem_append, not_or]
        exact ⟨⟨hpre.1, by decide⟩, ⟨hpre.2, by decide⟩⟩
      refine ⟨"map<".toList ++ inner, '>', "map<".toList ++ inner', ?_, by decide, by decide,
        by decide, ?_, ?_, .inr ⟨List.prefix_append _ _, List.prefix_append _ _⟩⟩
      · rw [List.append_assoc]
      · rw [spaceAssignment_eq_self hpm, List.append_assoc, List.append_assoc] at he
        exact he
      · rw [List.append_assoc]
        exact .map hn' hi'

/-- Normal spacing keeps a field's label, its name and the white space between type and name. -/
theorem IsNumbered.spaceAssignment {pre type gap name rest : List Char}
    (h : IsNumbered pre type gap name rest) :
    ∃ type' rest', IsNumbered pre type' gap name rest' ∧
      (type' = type ∨ "map<".toList <+: type ∧ "map<".toList <+: type') ∧
      (EndsSolid rest → EndsSolid rest') ∧
      spaceAssignment (pre ++ (type ++ (gap ++ (name ++ rest)))) =
        pre ++ (type' ++ (gap ++ (name ++ rest'))) := by
  obtain ⟨init, x, init', rfl, hx, hxe, hxs, hinit, htype, hmap⟩ :=
    exists_spaceAssignment_type (no_mark_of_label h.label) h.isType
  have hops := spaceAssignmentAfter_cases (pre ++ init) (gap ++ (name ++ rest))
  have he := spaceAssignment_append_cons hx hxe hxs (pre ++ init) (gap ++ (name ++ rest))
  generalize spaceAssignmentAfter (pre ++ init) (gap ++ (name ++ rest)) = t' at hops he
  have hm : '=' ∉ gap ++ name ∧ ';' ∉ gap ++ name := by
    simp only [List.mem_append, not_or]
    have hb := no_mark_of_blank h.gapBlank
    have hw := no_mark_of_word h.nameWord
    exact ⟨⟨hb.1, hw.1⟩, ⟨hb.2, hw.2⟩⟩
  have hs : EndsSolid (gap ++ name) := by
    rw [endsSolid_append h.nameNonempty]
    exact fun c hc => isBlank_of_isWord (h.nameWord c (List.mem_of_getLast? hc))
  have htail : ∃ rest', AssignsNumber rest' ∧ (EndsSolid rest → EndsSolid rest') ∧
      t' = gap ++ (name ++ rest') := by
    simp only [← List.append_assoc] at hops ⊢
    rcases hops with rfl | rfl | rfl | rfl
    · exact ⟨rest, h.assigns, id, rfl⟩
    · exact assignsNumber_spaceEquals hm.1 hs h.assigns
    · exact assignsNumber_tightenFirstSemicolon hm.2 h.assigns
    · obtain ⟨r, hr, hrs, hre⟩ := assignsNumber_spaceEquals hm.1 hs h.assigns
      obtain ⟨r', hr', hrs', hre'⟩ := assignsNumber_tightenFirstSemicolon hm.2 hr
      exact ⟨r', hr', hrs' ∘ hrs, by rw [Layout.spaceAssignment, hre, hre']⟩
  obtain ⟨rest', hr, hrs, rfl⟩ := htail
  refine ⟨init' ++ [x], rest', ⟨h.label, htype, h.gapNonempty, h.gapBlank, h.nameNonempty,
    h.nameWord, hr⟩, ?_, hrs, ?_⟩
  · rcases hmap with rfl | ⟨h₁, h₂⟩
    · exact .inl rfl
    · exact .inr ⟨h₁.trans (List.prefix_append _ _), h₂.trans (List.prefix_append _ _)⟩
  · rw [hinit] at he
    simpa only [List.append_assoc, List.singleton_append] using he

end SchemaLint.Layout
