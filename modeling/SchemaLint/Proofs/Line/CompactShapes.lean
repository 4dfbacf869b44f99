import SchemaLint.Proofs.Line.Assignment
import SchemaLint.Proofs.Line.Compact
import SchemaLint.Proofs.Line.FirstWord

/-! Shapes of statements on compact text. A reader finds in the compact form of a text what it
finds in the text, and leaves the compact form of what it leaves there, if it asks for white space
only where no mark can follow. -/

namespace SchemaLint.Line
open SchemaLint.Text

theorem firstWord_compact (s : List Char) : firstWord (compact s) = firstWord s :=
  (takeWhile_compact (fun _ => isFirm_of_isWord) s).1

theorem afterWord_compact (s : List Char) :
    (compact s).dropWhile isWord = compact (s.dropWhile isWord) :=
  (takeWhile_compact (fun _ => isFirm_of_isWord) s).2

theorem word?_compact (s : List Char) :
    word? (compact s) = (word? s).map fun r => (r.1, compact r.2) :=
  run?_compact (fun _ => isFirm_of_isWord) s

theorem isFirm_of_isDigit {c : Char} (h : isDigit c) : isFirm c := by
  refine isFirm_iff.2 ⟨isBlank_of_isDigit h, ?_⟩
  cases hm : isMark c with
  | false => rfl
  | true =>
      simp only [isMark, Bool.or_eq_true, beq_iff_eq] at hm
      rcases hm with (((rfl | rfl) | rfl) | rfl) | rfl <;> exact absurd h (by decide)

theorem digits?_compact (s : List Char) :
    digits? (compact s) = (digits? s).map fun r => (r.1, compact r.2) :=
  run?_compact (fun _ => isFirm_of_isDigit) s

theorem word?_of_mark {m : Char} (hm : isMark m) (s : List Char) : word? (m :: s) = none := by
  rw [word?, run?, List.takeWhile_cons_of_neg (by simp [isWord_of_isMark hm])]

theorem afterBlanks?_bind_compact {β : Type} {f : List Char → Option β} {g : β → β}
    (hf : ∀ s, f (compact s) = (f s).map g) (hmark : ∀ m s, isMark m → f (m :: s) = none)
    (s : List Char) :
    (afterBlanks? (compact s)).bind f = ((afterBlanks? s).bind f).map g := by
  cases s with
  | nil => rfl
  | cons c s =>
      cases hc : isBlank c with
      | true =>
          have hblank : ∀ b t, isBlank b → afterBlanks? (b :: t) = some (trimStart t) :=
            fun _ _ hb => if_pos hb
          rw [hblank c s hc, Option.bind_some, ← hf, ← trimStart_compact, compact_cons]
          -- either the white space stays, or a mark follows it and neither side reads anything
          rcases press_blank hc (compact s) with ⟨he, d, hd, hkind⟩ | ⟨he, -⟩
          · obtain ⟨t, ht⟩ := List.head?_eq_some_iff.1 hd
            rw [he, ht]
            rcases hkind with hb | hm
            · rw [hblank d t hb]
              exact congrArg f (trimStart_append (g := [d]) (by simpa [Blank] using hb)).symm
            · have hd := isBlank_of_isMark hm
              rw [(startsSolid_cons.2 hd).trimStart, hmark d t hm, afterBlanks?, hd]
              rfl
          · rw [he, hblank ' ' _ (by decide)]
            rfl
      | false =>
          obtain ⟨t, ht⟩ := List.head?_eq_some_iff.1 (head?_compact hc s)
          rw [ht, afterBlanks?, afterBlanks?, hc]
          rfl

theorem afterBlanks?_word?_compact (s : List Char) :
    (afterBlanks? (compact s)).bind word? =
      ((afterBlanks? s).bind word?).map fun r => (r.1, compact r.2) :=
  afterBlanks?_bind_compact word?_compact (fun _ s hm => word?_of_mark hm s) s

/-- What a keyword leads is decided by the first word and by what follows it. -/
theorem after?_bind_eq {β : Type} {f : List Char → Option β}
    (hf : ∀ c t, isWord c → f (c :: t) = none) {keyword : List Char}
    (hk : ∀ c ∈ keyword, isWord c) (s : List Char) :
    (after? keyword s).bind f =
      if keyword = firstWord s then f (s.dropWhile isWord) else none := by
  split
  case isTrue h =>
      have hs : after? (firstWord s) s = some (s.dropWhile isWord) :=
        after?_eq_some_iff.2 List.takeWhile_append_dropWhile.symm
      rw [h, hs, Option.bind_some]
  case isFalse h =>
      refine Option.eq_none_iff_forall_ne_some.2 fun r hr => h ?_
      obtain ⟨t, ht, hr⟩ := Option.bind_eq_some_iff.1 hr
      refine (firstWord_of_after? hk ht fun c hc => ?_).symm
      obtain ⟨u, rfl⟩ := List.head?_eq_some_iff.1 hc
      refine eq_false_of_ne_true fun hw => ?_
      rw [hf c u hw] at hr
      cases hr

theorem afterBlanks?_of_word {c : Char} (h : isWord c) (t : List Char) :
    afterBlanks? (c :: t) = none :=
  if_neg (by rw [isBlank_of_isWord h]; exact Bool.false_ne_true)

theorem afterKeyword?_eq {keywords : List String}
    (hk : ∀ k ∈ keywords, ∀ c ∈ k.toList, isWord c) (s : List Char) :
    afterKeyword? keywords s =
      if keywords.any (·.toList = firstWord s) then afterBlanks? (s.dropWhile isWord)
      else none := by
  induction keywords with
  | nil => rfl
  | cons k keywords ih =>
      obtain ⟨hw, hk⟩ := List.forall_mem_cons.1 hk
      rw [afterKeyword?, List.findSome?_cons, after?_bind_eq (fun _ t h => afterBlanks?_of_word h t)
        hw s, ← afterKeyword?, ih hk, List.any_cons]
      by_cases he : k.toList = firstWord s
      · cases hb : afterBlanks? (s.dropWhile isWord) <;> simp [he]
      · simp [he]

theorem afterKeyword?_bind_compact {β : Type} {f : List Char → Option β} {g : β → β}
    (hf : ∀ s, f (compact s) = (f s).map g) (hmark : ∀ m s, isMark m → f (m :: s) = none)
    {keywords : List String} (hk : ∀ k ∈ keywords, ∀ c ∈ k.toList, isWord c) (s : List Char) :
    (afterKeyword? keywords (compact s)).bind f = ((afterKeyword? keywords s).bind f).map g := by
  rw [afterKeyword?_eq hk, afterKeyword?_eq hk, firstWord_compact, afterWord_compact]
  split
  · exact afterBlanks?_bind_compact hf hmark _
  · rfl

theorem mem_compact {c : Char} (hc : isBlank c = false) {s : List Char} :
    c ∈ compact s ↔ c ∈ s := by
  have hink : ∀ t, c ∈ ink t ↔ c ∈ t := fun t => by simp [ink, hc]
  rw [← hink, ink_compact, hink]

theorem until?_eq_none_iff {mark : Char} {s : List Char} : until? mark s = none ↔ mark ∉ s := by
  constructor
  · intro h hm
    obtain ⟨a, b, he, ha⟩ := List.eq_append_cons_of_mem hm
    rw [until?_eq_some_iff.2 ⟨ha, he⟩] at h
    cases h
  · refine fun h => Option.eq_none_iff_forall_ne_some.2 fun r hr => h ?_
    rw [(until?_eq_some_iff.1 hr).2]
    simp

theorem until?_compact_of_some {x : Char} (hx : isBlank x = false) {s a b : List Char}
    (h : until? x s = some (a, b)) :
    ∃ a' b', until? x (compact s) = some (a', b') ∧ compact (x :: b) = x :: b' ∧
      (isFirm x → (a' = [] ↔ a = [])) := by
  obtain ⟨ha, rfl⟩ := until?_eq_some_iff.1 h
  obtain ⟨a', he, hi, hn⟩ := compact_append_cons a hx b
  obtain ⟨b', hb⟩ := List.head?_eq_some_iff.1 (head?_compact hx b)
  have hink : ∀ t, x ∈ ink t ↔ x ∈ t := fun t => by simp [ink, hx]
  refine ⟨a', b', until?_eq_some_iff.2 ⟨?_, by rw [he, hb]⟩, hb, hn⟩
  rwa [← hink, hi, hink]

theorem afterType?_compact (s : List Char) :
    afterType? (compact s) = (afterType? s).map compact := by
  have hmap : ∀ c ∈ "map<".toList, isFirm c := by decide
  rw [afterType?, afterType?, after?_compact hmap]
  cases after? "map<".toList s with
  | some rest =>
      dsimp only [Option.map_some]
      cases hu : until? '>' rest with
      | none =>
          rw [until?_eq_none_iff, ← mem_compact (by decide), ← until?_eq_none_iff] at hu
          rw [hu]
          rfl
      | some r =>
          obtain ⟨inner', b', he, hb, hn⟩ := until?_compact_of_some (by decide) hu
          rw [compact_cons, press_firm (by decide)] at hb
          rw [he, Option.bind_some, Option.bind_some]
          dsimp only
          rw [← (List.cons.inj hb).2]
          by_cases hr : r.1 = []
          · rw [if_pos hr, if_pos ((hn (by decide)).2 hr)]
            rfl
          · rw [if_neg hr, if_neg fun h => hr ((hn (by decide)).1 h)]
            rfl
  | none =>
      have hpart : ∀ c, (isWord c || c == '.') → isFirm c := by
        intro c hc
        rw [Bool.or_eq_true, beq_iff_eq] at hc
        rcases hc with hc | rfl
        · exact isFirm_of_isWord hc
        · decide
      dsimp only [Option.map_none]
      rw [(takeWhile_compact hpart s).1, (takeWhile_compact hpart s).2]
      split <;> rfl

theorem typedName?_compact (s : List Char) :
    typedName? (compact s) = (typedName? s).map fun r => (r.1, compact r.2) := by
  rw [typedName?, typedName?, afterType?_compact]
  cases afterType? s with
  | none => rfl
  | some rest => exact afterBlanks?_word?_compact rest

theorem typedName?_of_mark {m : Char} (hm : isMark m) (s : List Char) :
    typedName? (m :: s) = none := by
  have hpart : (isWord m || m == '.') = false := by
    rw [isWord_of_isMark hm, Bool.false_or, beq_eq_false_iff_ne]
    rintro rfl
    cases hm
  have hmap : after? "map<".toList (m :: s) = none := if_neg (by rintro rfl; cases hm)
  rw [typedName?, afterType?, hmap]
  dsimp only
  rw [List.takeWhile_cons_of_neg (by simp [hpart])]
  rfl

theorem isFieldShaped_compact (s : List Char) : isFieldShaped (compact s) = isFieldShaped s := by
  have hlabel : (afterLabel? (compact s)).bind typedName? =
      ((afterLabel? s).bind typedName?).map fun r => (r.1, compact r.2) :=
    afterKeyword?_bind_compact typedName?_compact (fun _ s hm => typedName?_of_mark hm s)
      word_of_fieldLabel s
  rw [isFieldShaped, isFieldShaped, hlabel, typedName?_compact, Option.isSome_map,
    Option.isSome_map]

theorem isNestedDefinition_compact (s : List Char) :
    isNestedDefinition (compact s) = isNestedDefinition s := by
  have hword : (compact s).takeWhile isWord = s.takeWhile isWord := firstWord_compact s
  rw [isNestedDefinition, isNestedDefinition, hword]

/-- Ends of the compact form are compact forms of ends, as far as they start visibly. -/
theorem someEnd_compact {p : List Char → Bool}
    (hsolid : ∀ s, p s → ∃ x t, isBlank x = false ∧ s = x :: t)
    (hp : ∀ x t, isBlank x = false → p (compact (x :: t)) = p (x :: t)) (s : List Char) :
    someEnd p (compact s) = someEnd p s := by
  rw [Bool.eq_iff_iff, someEnd_iff, someEnd_iff]
  constructor
  · rintro ⟨t, ⟨a, he⟩, h⟩
    obtain ⟨x, t, hx, rfl⟩ := hsolid t h
    obtain ⟨u, v, rfl, hv⟩ := exists_of_compact_eq hx he.symm
    exact ⟨x :: v, List.suffix_append u _, by rw [← hp x v hx, hv, h]⟩
  · rintro ⟨t, ⟨a, rfl⟩, h⟩
    obtain ⟨x, t, hx, rfl⟩ := hsolid t h
    obtain ⟨a', he, -⟩ := compact_append_cons a hx t
    exact ⟨compact (x :: t), he ▸ List.suffix_append a' _, by rw [hp x t hx, h]⟩

theorem endsStatement_compact {s : List Char} (h : StartsSolid s) :
    endsStatement (compact s) = endsStatement s := by
  rw [endsStatement, endsStatement, startsSolid_compact h]

theorem afterNumber?_compact {x : Char} (hx : isBlank x = false) (t : List Char) :
    afterNumber? (compact (x :: t)) = (afterNumber? (x :: t)).map compact := by
  by_cases he : x = '='
  · subst he
    have htrim : trimStart (trimStart (compact t)) = compact (trimStart t) := by
      rw [(startsSolid_trimStart _).trimStart, trimStart_compact]
    rw [compact_cons, press_mark (by decide), afterNumber?, afterNumber?, htrim, digits?_compact,
      Option.map_map, Option.map_map]
    congr 1
    funext r
    exact trimStart_compact r.2
  · have hnone : ∀ u, afterNumber? (x :: u) = none := by
      intro u
      rw [afterNumber?]
      rintro _ ⟨⟩
      exact he rfl
    obtain ⟨u, hu⟩ := List.head?_eq_some_iff.1 (head?_compact hx t)
    rw [hu, hnone, hnone]
    rfl

theorem startsSolid_afterNumber? {s rest : List Char} (h : afterNumber? s = some rest) :
    StartsSolid rest := by
  unfold afterNumber? at h
  split at h
  · obtain ⟨r, -, rfl⟩ := Option.map_eq_some_iff.1 h
    exact startsSolid_trimStart r.2
  · cases h

theorem exists_of_afterNumber? {s rest : List Char} (h : afterNumber? s = some rest) :
    ∃ x t, isBlank x = false ∧ s = x :: t := by
  unfold afterNumber? at h
  split at h
  · exact ⟨'=', _, by decide, rfl⟩
  · cases h

theorem hasTerminatedNumber_compact (s : List Char) :
    hasTerminatedNumber (compact s) = hasTerminatedNumber s := by
  refine someEnd_compact ?_ ?_ s
  · intro s h
    obtain ⟨rest, hr, -⟩ := (Option.any_eq_true _ _).1 h
    exact exists_of_afterNumber? hr
  · intro x t hx
    rw [afterNumber?_compact hx]
    cases hr : afterNumber? (x :: t) with
    | none => rfl
    | some rest => exact endsStatement_compact (startsSolid_afterNumber? hr)

theorem hasUnterminatedNumber_compact (s : List Char) :
    hasUnterminatedNumber (compact s) = hasUnterminatedNumber s := by
  refine someEnd_compact (fun s h => exists_of_afterNumber? (of_decide_eq_true h)) ?_ s
  intro x t hx
  rw [afterNumber?_compact hx]
  cases afterNumber? (x :: t) with
  | none => rfl
  | some rest => simp [compact_eq_nil_iff]

theorem afterEquals?_compact (s : List Char) :
    afterEquals? (compact s) = (afterEquals? s).map compact := by
  rw [afterEquals?, afterEquals?, trimStart_compact]
  have hs := startsSolid_trimStart s
  cases ht : trimStart s with
  | nil => rfl
  | cons c t =>
      rw [ht, startsSolid_cons] at hs
      by_cases hc : c = '='
      · subst hc
        rw [compact_cons, press_mark (by decide)]
        refine congrArg some ?_
        rw [(startsSolid_trimStart _).trimStart, trimStart_compact]
      · obtain ⟨u, hu⟩ := List.head?_eq_some_iff.1 (head?_compact hs t)
        rw [hu]
        split
        case h_1 h => exact absurd (List.cons.inj h).1 hc
        case h_2 =>
            split
            case h_1 h => exact absurd (List.cons.inj h).1 hc
            case h_2 => rfl

theorem assignment?_compact (s : List Char) :
    assignment? (compact s) = (assignment? s).map fun r => (r.1, compact r.2) := by
  rw [assignment?, assignment?, word?_compact]
  cases word? s with
  | none => rfl
  | some r =>
      dsimp only [Option.map_some, Option.bind_some]
      rw [afterEquals?_compact]
      cases afterEquals? r.2 with
      | none => rfl
      | some rest =>
          dsimp only [Option.map_some, Option.bind_some]
          by_cases hd : rest.head? = some '-'
          · obtain ⟨t, rfl⟩ := List.head?_eq_some_iff.1 hd
            change ((digits? (compact t)).map fun d => (_, d.2)) = _
            rw [digits?_compact]
            cases h : digits? t <;> simp [h]
          · have hdash : ∀ t, compact rest ≠ '-' :: t := by
              intro t ht
              cases rest with
              | nil => cases ht
              | cons c rest =>
                  by_cases hf : isFirm c
                  · rw [compact_cons, press_firm hf] at ht
                    exact hd (by rw [(List.cons.inj ht).1]; rfl)
                  · exact head?_compact_of_not hf rest '-' (ht ▸ rfl) (by decide)
            split
            case h_1 t ht => exact absurd ht (hdash t)
            case h_2 =>
                split
                case h_1 => exact absurd rfl hd
                case h_2 =>
                    rw [digits?_compact, Option.map_map, Option.map_map]
                    rfl

theorem isTerminatedValue_compact (s : List Char) :
    isTerminatedValue (compact s) = isTerminatedValue s := by
  rw [isTerminatedValue, isTerminatedValue, assignment?_compact]
  cases assignment? s with
  | none => rfl
  | some r =>
      dsimp only [Option.map_some, Option.any_some]
      rw [trimStart_compact, endsStatement_compact (startsSolid_trimStart r.2)]

theorem isUnterminatedValue_compact (s : List Char) :
    isUnterminatedValue (compact s) = isUnterminatedValue s := by
  rw [isUnterminatedValue, isUnterminatedValue, assignment?_compact]
  cases assignment? s with
  | none => rfl
  | some r =>
      dsimp only [Option.map_some, Option.any_some]
      rw [trimStart_compact, decide_eq_decide.2 compact_eq_nil_iff]

def openerAfter (kind : BlockKind) (rest : List Char) : Option Opener :=
  match rest with
  | [] => some ⟨kind, [], []⟩
  | '{' :: _ => some ⟨kind, [], rest⟩
  | _ => (afterBlanks? rest).map fun rest => ⟨kind, rest.takeWhile isWord, rest.dropWhile isWord⟩

def Opener.isNamed (o : Opener) : Bool :=
  o.name ≠ []

theorem openerAfter_of_word (kind : BlockKind) {c : Char} (hc : isWord c) (t : List Char) :
    openerAfter kind (c :: t) = none := by
  have hbrace : c ≠ '{' := by
    rintro rfl
    cases hc
  unfold openerAfter
  split
  case h_1 he => cases he
  case h_2 he => exact absurd (List.cons.inj he).1 hbrace
  case h_3 => rw [afterBlanks?_of_word hc]; rfl

theorem BlockKind.word_inj : ∀ {k l : BlockKind}, k.word.toList = l.word.toList → k = l := by
  intro k l
  cases k <;> cases l <;> decide

/-- The first word of a line decides whether it is an opener, and of what kind. -/
theorem opener?_eq_some_iff {s : List Char} {o : Opener} :
    opener? s = some o ↔ ∃ kind ∈ BlockKind.declared, kind.word.toList = firstWord s ∧
      openerAfter kind (s.dropWhile isWord) = some o := by
  have hkind : ∀ kind ∈ BlockKind.declared, (after? kind.word.toList s).bind (openerAfter kind) =
      if kind.word.toList = firstWord s then openerAfter kind (s.dropWhile isWord) else none :=
    fun kind hk => after?_bind_eq (fun _ t hc => openerAfter_of_word kind hc t)
      (word_of_declared kind hk) s
  have exists_kind : ∀ {p}, opener? s = some p → ∃ kind ∈ BlockKind.declared,
      kind.word.toList = firstWord s ∧ openerAfter kind (s.dropWhile isWord) = some p := by
    intro p hp
    obtain ⟨kind, hk, hp⟩ := List.exists_of_findSome?_eq_some hp
    change (after? kind.word.toList s).bind (openerAfter kind) = some p at hp
    rw [hkind kind hk, Option.ite_none_right_eq_some] at hp
    exact ⟨kind, hk, hp⟩
  refine ⟨exists_kind, ?_⟩
  rintro ⟨kind, hk, hw, ho⟩
  have hsome : (opener? s).isSome := by
    refine List.findSome?_isSome_iff.2 ⟨kind, hk, ?_⟩
    change ((after? kind.word.toList s).bind (openerAfter kind)).isSome
    rw [hkind kind hk, if_pos hw, ho]
    rfl
  obtain ⟨p, hp⟩ := Option.isSome_iff_exists.1 hsome
  obtain ⟨kind', -, hw', hp'⟩ := exists_kind hp
  rw [BlockKind.word_inj (hw'.trans hw.symm), ho] at hp'
  rw [hp, hp']

theorem openerAfter_filter (kind : BlockKind) (rest : List Char) :
    (openerAfter kind rest).filter Opener.isNamed =
      ((afterBlanks? rest).bind word?).map fun r => ⟨kind, r.1, r.2⟩ := by
  unfold openerAfter
  split
  case h_1 => rfl
  case h_2 t =>
      have hnone : afterBlanks? ('{' :: t) = none := rfl
      rw [hnone]
      rfl
  case h_3 =>
      cases afterBlanks? rest with
      | none => rfl
      | some r =>
          rw [Option.map_some, Option.bind_some, word?, run?]
          cases h : r.takeWhile isWord with
          | nil => rfl
          | cons c w => rfl

theorem openerAfter_compact (kind : BlockKind) (rest : List Char) :
    (openerAfter kind (compact rest)).filter Opener.isNamed =
      ((openerAfter kind rest).filter Opener.isNamed).map fun o =>
        { o with rest := compact o.rest } := by
  rw [openerAfter_filter, openerAfter_filter, afterBlanks?_word?_compact, Option.map_map,
    Option.map_map]
  rfl

theorem opener?_compact_of_named {s : List Char} {o : Opener} (h : opener? s = some o)
    (hn : o.isNamed) : opener? (compact s) = some { o with rest := compact o.rest } := by
  obtain ⟨kind, hk, hw, ho⟩ := opener?_eq_some_iff.1 h
  have hfilter := openerAfter_compact kind (s.dropWhile isWord)
  rw [ho, Option.filter_some_pos hn, Option.map_some, Option.filter_eq_some_iff] at hfilter
  refine opener?_eq_some_iff.2 ⟨kind, hk, ?_, ?_⟩
  · rw [firstWord_compact, hw]
  · rw [afterWord_compact, hfilter.1]

theorem exists_opener?_of_compact {s : List Char} {p : Opener} (h : opener? (compact s) = some p)
    (hn : p.isNamed) :
    ∃ o, opener? s = some o ∧ o.isNamed ∧ p = { o with rest := compact o.rest } := by
  obtain ⟨kind, hk, hw, hp⟩ := opener?_eq_some_iff.1 h
  rw [firstWord_compact] at hw
  rw [afterWord_compact] at hp
  have hfilter := openerAfter_compact kind (s.dropWhile isWord)
  rw [hp, Option.filter_some_pos hn] at hfilter
  obtain ⟨o, ho, hop⟩ := Option.map_eq_some_iff.1 hfilter.symm
  obtain ⟨ho, hon⟩ := Option.filter_eq_some_iff.1 ho
  exact ⟨o, opener?_eq_some_iff.2 ⟨kind, hk, hw, ho⟩, hon, hop.symm⟩

end SchemaLint.Line
