import SchemaLint.Proofs.Layout.CodeSpacing
import SchemaLint.Proofs.Line.Cut

/-! Code with a comment behind it. A reader of statements stops at the white space and the slash
that end the code, so it finds in the line what it finds in the code. The one that does not is the
reader of map types, which looks for the end of the type in the whole line. -/

namespace SchemaLint.Line
open SchemaLint.Text SchemaLint.Layout

/-- The second text goes on where the first ends, by white space and a slash. -/
inductive Trailed : List Char → List Char → Prop
  | stop {g : List Char} (t : List Char) : Blank g → Trailed [] (g ++ '/' :: t)
  | cons (a : Char) {c s : List Char} : Trailed c s → Trailed (a :: c) (a :: s)

/-- Two readings with the same value, what they leave being trailed. -/
def TrailedPair {α : Type} (p q : α × List Char) : Prop :=
  p.1 = q.1 ∧ Trailed p.2 q.2

/-- Code may go on with the character: neither white space nor a slash. -/
def goesOn (c : Char) : Bool :=
  !isBlank c && c != '/'

theorem goesOn_iff {c : Char} : goesOn c ↔ isBlank c = false ∧ c ≠ '/' := by
  simp [goesOn]

theorem goesOn_of_isWord {c : Char} (h : isWord c) : goesOn c := by
  refine goesOn_iff.2 ⟨isBlank_of_isWord h, ?_⟩
  rintro rfl
  exact absurd h (by decide)

theorem goesOn_of_isDigit {c : Char} (h : isDigit c) : goesOn c := by
  refine goesOn_iff.2 ⟨isBlank_of_isDigit h, ?_⟩
  rintro rfl
  exact absurd h (by decide)

theorem head_of_stop {g : List Char} (hg : Blank g) (t : List Char) :
    ∃ a x, goesOn a = false ∧ g ++ '/' :: t = a :: x := by
  cases g with
  | nil => exact ⟨'/', t, by decide, rfl⟩
  | cons b g => exact ⟨b, g ++ '/' :: t, by simp [goesOn, (blank_cons.1 hg).1], rfl⟩

theorem equalOption_of_rel {α : Type} {a b : Option α} (h : Option.Rel Eq a b) : a = b := by
  cases h with
  | none => rfl
  | some h => rw [h]

namespace Trailed
variable {c s : List Char}

theorem append {g : List Char} (c : List Char) (hg : Blank g) (t : List Char) :
    Trailed c (c ++ (g ++ '/' :: t)) := by
  induction c with
  | nil => exact .stop t hg
  | cons a c ih => exact .cons a ih

theorem exists_eq (h : Trailed c s) : ∃ g t, Blank g ∧ s = c ++ (g ++ '/' :: t) := by
  induction h with
  | @stop g t hg => exact ⟨g, t, hg, rfl⟩
  | cons a _ ih =>
      obtain ⟨g, t, hg, rfl⟩ := ih
      exact ⟨g, t, hg, rfl⟩

theorem takeWhile (h : Trailed c s) {p : Char → Bool} (hp : ∀ a, p a → goesOn a) :
    s.takeWhile p = c.takeWhile p ∧ Trailed (c.dropWhile p) (s.dropWhile p) := by
  induction h with
  | @stop g t hg =>
      obtain ⟨a, x, ha, hx⟩ := head_of_stop hg t
      have hpa : ¬ p a := fun h => by
        rw [hp a h] at ha
        cases ha
      have hself : (g ++ '/' :: t).dropWhile p = g ++ '/' :: t := by
        rw [hx, List.dropWhile_cons_of_neg hpa]
      rw [hself, hx, List.takeWhile_cons_of_neg hpa, ← hx]
      exact ⟨rfl, .stop t hg⟩
  | @cons a c s h ih =>
      by_cases ha : p a
      · rw [List.takeWhile_cons_of_pos ha, List.takeWhile_cons_of_pos ha,
          List.dropWhile_cons_of_pos ha, List.dropWhile_cons_of_pos ha, ih.1]
        exact ⟨rfl, ih.2⟩
      · rw [List.takeWhile_cons_of_neg ha, List.takeWhile_cons_of_neg ha,
          List.dropWhile_cons_of_neg ha, List.dropWhile_cons_of_neg ha]
        exact ⟨rfl, .cons a h⟩

theorem run? (h : Trailed c s) {p : Char → Bool} (hp : ∀ a, p a → goesOn a) :
    Option.Rel TrailedPair (run? p c) (run? p s) := by
  obtain ⟨htake, hdrop⟩ := h.takeWhile hp
  rw [Text.run?, Text.run?, htake]
  cases c.takeWhile p with
  | nil => exact .none
  | cons a w => exact .some ⟨rfl, hdrop⟩

theorem word? (h : Trailed c s) : Option.Rel TrailedPair (word? c) (word? s) :=
  h.run? fun _ => goesOn_of_isWord

theorem digits? (h : Trailed c s) : Option.Rel TrailedPair (digits? c) (digits? s) :=
  h.run? fun _ => goesOn_of_isDigit

theorem after? (h : Trailed c s) {k : List Char} (hk : ∀ a ∈ k, goesOn a) :
    Option.Rel Trailed (after? k c) (after? k s) := by
  induction k generalizing c s with
  | nil => exact .some h
  | cons b k ih =>
      obtain ⟨hb, hk⟩ := List.forall_mem_cons.1 hk
      cases h with
      | @stop g t hg =>
          obtain ⟨a, x, ha, hx⟩ := head_of_stop hg t
          have hne : b ≠ a := by
            rintro rfl
            rw [hb] at ha
            cases ha
          rw [hx, Text.after?, Text.after?, if_neg hne]
          exact .none
      | cons a h =>
          rw [Text.after?, Text.after?]
          split
          · exact ih h hk
          · exact .none

theorem trimStart (h : Trailed c s) : Trailed (trimStart c) (trimStart s) := by
  induction h with
  | @stop g t hg =>
      rw [trimStart_append hg, (startsSolid_cons.2 (by decide : isBlank '/' = false)).trimStart]
      exact .stop t .nil
  | @cons a c s h ih =>
      cases ha : isBlank a with
      | true =>
          have hskip : ∀ u : List Char, Text.trimStart (a :: u) = Text.trimStart u := fun u =>
            trimStart_append (g := [a]) (by simpa [Blank] using ha)
          rw [hskip, hskip]
          exact ih
      | false =>
          rw [(startsSolid_cons.2 ha).trimStart, (startsSolid_cons.2 ha).trimStart]
          exact .cons a h

theorem until? (h : Trailed c s) {m : Char} (hm : m ∈ c) :
    Option.Rel TrailedPair (until? m c) (until? m s) := by
  obtain ⟨f, r, rfl, hf⟩ := List.eq_append_cons_of_mem hm
  have hdrop : ∃ d, s = f ++ m :: d ∧ Trailed r d := by
    clear hm hf
    induction f generalizing s with
    | nil =>
        cases h with
        | cons _ h => exact ⟨_, rfl, h⟩
    | cons a f ih =>
        cases h with
        | cons _ h =>
            obtain ⟨d, rfl, hd⟩ := ih h
            exact ⟨d, rfl, hd⟩
  obtain ⟨d, rfl, hd⟩ := hdrop
  rw [until?_eq_some_iff.2 ⟨hf, rfl⟩, until?_eq_some_iff.2 ⟨hf, rfl⟩]
  exact .some ⟨rfl, hd⟩

/-- White space at the end of the code is followed by a slash in the line, and by nothing that a
reader takes in either. -/
theorem afterBlanks?_bind {β γ : Type} {r : β → γ → Prop} {f : List Char → Option β}
    {f' : List Char → Option γ} (h : Trailed c s)
    (hf : ∀ c', afterBlanks? c = some c' → ∀ s', Trailed c' s' → Option.Rel r (f c') (f' s'))
    (hslash : ∀ t, f' ('/' :: t) = none) :
    Option.Rel r ((afterBlanks? c).bind f) ((afterBlanks? s).bind f') := by
  cases h with
  | @stop g t hg =>
      have hnone : (afterBlanks? (g ++ '/' :: t)).bind f' = none := by
        cases g with
        | nil => rfl
        | cons b g =>
            obtain ⟨hb, hg⟩ := blank_cons.1 hg
            rw [List.cons_append, Text.afterBlanks?, if_pos hb, Option.bind_some,
              trimStart_append hg, (startsSolid_cons.2 (by decide)).trimStart, hslash]
      rw [hnone]
      exact .none
  | @cons a c s h =>
      rw [Text.afterBlanks?] at hf ⊢
      rw [Text.afterBlanks?]
      split
      case isTrue ha => exact hf _ (if_pos ha) _ h.trimStart
      case isFalse => exact .none

theorem afterKeyword?_bind {β γ : Type} {r : β → γ → Prop} {f : List Char → Option β}
    {f' : List Char → Option γ} {keywords : List String} (h : Trailed c s)
    (hk : ∀ k ∈ keywords, ∀ a ∈ k.toList, isWord a)
    (hf : ∀ c', afterKeyword? keywords c = some c' → ∀ s', Trailed c' s' →
      Option.Rel r (f c') (f' s'))
    (hslash : ∀ t, f' ('/' :: t) = none) :
    Option.Rel r ((afterKeyword? keywords c).bind f) ((afterKeyword? keywords s).bind f') := by
  obtain ⟨hword, hrest⟩ := h.takeWhile fun _ => goesOn_of_isWord
  have hword : firstWord s = firstWord c := hword
  rw [afterKeyword?_eq hk] at hf ⊢
  rw [afterKeyword?_eq hk, hword]
  split
  case isTrue hw =>
      exact hrest.afterBlanks?_bind (fun c' hc' => hf c' (by rw [if_pos hw, hc'])) hslash
  case isFalse => exact .none

theorem word?_slash (t : List Char) : Text.word? ('/' :: t) = none := by
  rw [Text.word?, Text.run?, List.takeWhile_cons_of_neg (by decide)]

theorem declaredName? (h : Trailed c s) {keyword : String} (hk : ∀ a ∈ keyword.toList, isWord a) :
    declaredName? keyword s = declaredName? keyword c := by
  have hrel : Option.Rel TrailedPair ((afterKeyword? [keyword] c).bind Text.word?)
      ((afterKeyword? [keyword] s).bind Text.word?) :=
    h.afterKeyword?_bind (List.forall_mem_singleton.2 hk) (fun _ _ _ h => h.word?) word?_slash
  exact (equalOption_of_rel (rel_map hrel fun _ _ hr => hr.1)).symm

theorem afterEquals? (h : Trailed c s) :
    Option.Rel Trailed (afterEquals? c) (afterEquals? s) := by
  have hnone : ∀ {a : Char} (u : List Char), a ≠ '=' → isBlank a = false →
      Line.afterEquals? (a :: u) = none := by
    intro a u ha hb
    rw [Line.afterEquals?, (startsSolid_cons.2 hb).trimStart]
    split
    case h_1 he => exact absurd (List.cons.inj he).1 ha
    case h_2 => rfl
  have htrim : ∀ u : List Char, Line.afterEquals? (Text.trimStart u) = Line.afterEquals? u := by
    intro u
    rw [Line.afterEquals?, Line.afterEquals?, (startsSolid_trimStart u).trimStart]
  have h := h.trimStart
  have hs := startsSolid_trimStart c
  rw [← htrim c, ← htrim s]
  generalize Text.trimStart c = c' at h hs
  generalize Text.trimStart s = s' at h
  cases h with
  | @stop g t hg =>
      rw [← htrim (g ++ '/' :: t), trimStart_append hg, (startsSolid_cons.2 (by decide)).trimStart,
        hnone t (by decide) (by decide)]
      exact .none
  | @cons a c s h =>
      have ha := startsSolid_cons.1 hs
      by_cases he : a = '='
      · subst he
        exact .some h.trimStart
      · rw [hnone c he ha, hnone s he ha]
        exact .none

theorem assignment? (h : Trailed c s) :
    Option.Rel TrailedPair (assignment? c) (assignment? s) := by
  refine rel_bind h.word? fun p q hpq => rel_bind hpq.2.afterEquals? fun r r' hr => ?_
  obtain ⟨hname, -⟩ := hpq
  rw [hname]
  cases hr with
  | @stop g t hg =>
      obtain ⟨a, x, ha, hx⟩ := head_of_stop hg t
      have hdash : a ≠ '-' := by
        rintro rfl
        exact absurd ha (by decide)
      have hdigits : Text.digits? (a :: x) = none := by
        rw [Text.digits?, Text.run?, List.takeWhile_cons_of_neg fun h => by
          rw [goesOn_of_isDigit h] at ha
          cases ha]
      rw [hx]
      split
      case h_1 he => cases he
      case h_2 =>
          split
          case h_1 he => exact absurd (List.cons.inj he).1 hdash
          case h_2 =>
              rw [hdigits]
              exact .none
  | @cons a r r' hr =>
      by_cases ha : a = '-'
      · subst ha
        exact rel_map hr.digits? fun _ _ hd => ⟨congrArg (Assignment.mk q.1 true) hd.1, hd.2⟩
      · split
        case h_1 he => exact absurd (List.cons.inj he).1 ha
        case h_2 =>
            split
            case h_1 he => exact absurd (List.cons.inj he).1 ha
            case h_2 =>
                exact rel_map (hr.cons a).digits? fun _ _ hd =>
                  ⟨congrArg (Assignment.mk q.1 false) hd.1, hd.2⟩

theorem afterType? (h : Trailed c s)
    (hclosed : ∀ r, Text.after? "map<".toList c = some r → '>' ∈ r) :
    Option.Rel Trailed (afterType? c) (afterType? s) := by
  have hmap := h.after? (k := "map<".toList) (by decide)
  rw [Line.afterType?, Line.afterType?]
  generalize Text.after? "map<".toList c = a at hmap hclosed
  generalize Text.after? "map<".toList s = b at hmap
  cases hmap with
  | @some r r' hr =>
      refine rel_bind (hr.until? (hclosed r rfl)) fun p q hpq => ?_
      obtain ⟨hfst, hrest⟩ := hpq
      dsimp only
      rw [← hfst]
      split
      · exact .none
      · exact .some hrest
  | none =>
      have hpart : ∀ a, (isWord a || a == '.') → goesOn a := by
        intro a ha
        rw [Bool.or_eq_true, beq_iff_eq] at ha
        rcases ha with ha | rfl
        · exact goesOn_of_isWord ha
        · decide
      obtain ⟨htake, hdrop⟩ := h.takeWhile hpart
      dsimp only
      rw [htake]
      split
      · exact .some hdrop
      · exact .none

theorem numberedName? (h : Trailed c s)
    (hclosed : ∀ r, Text.after? "map<".toList c = some r → '>' ∈ r) :
    Option.Rel Eq (numberedName? c) (numberedName? s) := by
  have htyped : Option.Rel TrailedPair (typedName? c) (typedName? s) := by
    rw [typedName?, typedName?, Option.bind_assoc, Option.bind_assoc]
    exact rel_bind (h.afterType? hclosed) fun _ _ hr =>
      hr.afterBlanks?_bind (fun _ _ _ h => h.word?) word?_slash
  refine rel_bind htyped fun p q hpq => rel_map (r := TrailedPair) ?_ fun _ _ _ => hpq.1
  exact rel_bind hpq.2.afterEquals? fun _ _ hr => hr.digits?

end Trailed

/-- The text starts with a map type that does not end, perhaps after a label. -/
def leavesMapOpen (s : List Char) : Bool :=
  (s :: (afterLabel? s).toList).any fun t => (after? "map<".toList t).any fun r => !r.contains '>'

theorem closed_of_leavesMapOpen {s : List Char} (h : leavesMapOpen s = false) :
    (∀ r, after? "map<".toList s = some r → '>' ∈ r) ∧
      ∀ t, afterLabel? s = some t → ∀ r, after? "map<".toList t = some r → '>' ∈ r := by
  have hclosed : ∀ t ∈ s :: (afterLabel? s).toList, ∀ r, after? "map<".toList t = some r →
      '>' ∈ r := by
    intro t ht r hr
    have := List.any_eq_false.1 h t ht
    rw [hr] at this
    simpa using this
  exact ⟨hclosed s List.mem_cons_self, fun t ht =>
    hclosed t (List.mem_cons_of_mem _ (by simp [ht]))⟩

namespace Trailed
variable {c s : List Char}

theorem fieldName? (h : Trailed c s) (hopen : leavesMapOpen c = false) :
    fieldName? s = fieldName? c := by
  obtain ⟨hclosed, hlabelled⟩ := closed_of_leavesMapOpen hopen
  have hslash : ∀ t, Line.numberedName? ('/' :: t) = none := fun t =>
    Option.eq_none_iff_forall_ne_some.2 fun r hr => by
      obtain ⟨a, ha, hw⟩ := startsWord_of_numberedName? hr
      cases ha
      exact absurd hw (by decide)
  have hlabel : Option.Rel Eq ((afterLabel? c).bind Line.numberedName?)
      ((afterLabel? s).bind Line.numberedName?) :=
    h.afterKeyword?_bind word_of_fieldLabel
      (fun c' hc' _ h' => h'.numberedName? (hlabelled c' hc')) hslash
  rw [Line.fieldName?, Line.fieldName?]
  exact congrArg₂ _ (equalOption_of_rel hlabel).symm
    (equalOption_of_rel (h.numberedName? hclosed)).symm

theorem startsWith (h : Trailed c s) {k : List Char} (hk : ∀ a ∈ k, goesOn a) :
    startsWith k s = startsWith k c :=
  (isSome_of_rel (h.after? hk)).symm

/-- A keyword and a space are at the start of the line if they are at that of the code, unless the
code is the keyword alone. -/
theorem startsWith_spaced (h : Trailed c s) {k : List Char} (hk : EndsSolid k) (hslash : '/' ∉ k)
    (hne : c ≠ k) : Text.startsWith (k ++ [' ']) s = Text.startsWith (k ++ [' ']) c := by
  obtain ⟨g, t, hg, rfl⟩ := h.exists_eq
  have hprefix : c <+: c ++ (g ++ '/' :: t) := List.prefix_append c _
  rw [Bool.eq_iff_iff, startsWith_iff, startsWith_iff]
  refine ⟨fun hs => ?_, fun hc => hc.trans hprefix⟩
  rcases List.prefix_or_prefix_of_prefix hs hprefix with hc | hc
  · exact hc
  rcases List.prefix_concat_iff.1 hc with rfl | ⟨d, rfl⟩
  · exact List.prefix_refl _
  -- the code stops inside the keyword, and what is missing of it would be white space
  have hd : d ≠ [] := by
    rintro rfl
    exact hne (List.append_nil c).symm
  rw [List.append_assoc, List.prefix_append_right_inj] at hs
  have hblank : d ++ [' '] <+: g := by
    rcases List.prefix_or_prefix_of_prefix hs (List.prefix_append g _) with hs' | ⟨e, he⟩
    · exact hs'
    · cases e with
      | nil => exact ⟨[], by rw [List.append_nil] at he ⊢; exact he.symm⟩
      | cons x e =>
          rw [← he, List.prefix_append_right_inj, List.cons_prefix_cons] at hs
          have hmem : '/' ∈ d ++ [' '] := he ▸ by simp [hs.1]
          simp only [List.mem_append, not_or] at hslash
          simp [hslash.2] at hmem
  have hk := (endsSolid_append hd).1 hk
  exact absurd (fun a ha => hg a (hblank.subset (List.mem_append_left _ ha)))
    (not_blank_of_endsSolid hd hk)

end Trailed

end SchemaLint.Line
