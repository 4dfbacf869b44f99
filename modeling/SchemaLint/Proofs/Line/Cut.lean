import SchemaLint.Proofs.Line.CompactShapes

/-! A statement cut off after its semicolon. What follows the semicolon are closing braces and
semicolons, and no reader of statements gets that far: each finds in the line what it finds in the
statement, and leaves of the line what it leaves of the statement and the rest of the line. -/

namespace SchemaLint.Line
open SchemaLint.Text

/-- The first text ends with a semicolon, and the second goes on after it with closing braces. -/
structure Cut (s c : List Char) : Prop where
  terminated : s.getLast? = some ';'
  tail : ∃ x, c = s ++ x ∧ ∀ d ∈ x, isBlank d ∨ d = '}' ∨ d = ';'

/-- Two readings with the same value, what they leave being cut. -/
def CutPair {α : Type} (p q : α × List Char) : Prop :=
  p.1 = q.1 ∧ Cut p.2 q.2

theorem rel_bind {α β γ δ : Type} {r : α → β → Prop} {q : γ → δ → Prop} {a : Option α}
    {b : Option β} {f : α → Option γ} {g : β → Option δ} (h : Option.Rel r a b)
    (hf : ∀ x y, r x y → Option.Rel q (f x) (g y)) : Option.Rel q (a.bind f) (b.bind g) := by
  cases h with
  | none => exact .none
  | some h => exact hf _ _ h

theorem rel_map {α β γ δ : Type} {r : α → β → Prop} {q : γ → δ → Prop} {a : Option α}
    {b : Option β} {f : α → γ} {g : β → δ} (h : Option.Rel r a b)
    (hf : ∀ x y, r x y → q (f x) (g y)) : Option.Rel q (a.map f) (b.map g) := by
  cases h with
  | none => exact .none
  | some h => exact .some (hf _ _ h)

theorem isSome_of_rel {α β : Type} {r : α → β → Prop} {a : Option α} {b : Option β}
    (h : Option.Rel r a b) : a.isSome = b.isSome := by
  cases h <;> rfl

theorem any_of_rel {α β : Type} {r : α → β → Prop} {a : Option α} {b : Option β} {p : α → Bool}
    {q : β → Bool} (h : Option.Rel r a b) (hpq : ∀ x y, r x y → p x = q y) :
    a.any p = b.any q := by
  cases h with
  | none => rfl
  | some h => exact hpq _ _ h

theorem bind_of_rel {α β γ : Type} {r : α → β → Prop} {a : Option α} {b : Option β}
    {f : α → Option γ} {g : β → Option γ} (h : Option.Rel r a b)
    (hfg : ∀ x y, r x y → f x = g y) : a.bind f = b.bind g := by
  cases h with
  | none => rfl
  | some h => exact hfg _ _ h

namespace Cut
variable {s c : List Char}

theorem ne_nil (h : Cut s c) : s ≠ [] := by
  rintro rfl
  cases h.terminated

theorem head? (h : Cut s c) : c.head? = s.head? := by
  obtain ⟨x, rfl, -⟩ := h.tail
  rw [List.head?_append_of_ne_nil _ h.ne_nil]

theorem mem (h : Cut s c) : ';' ∈ s :=
  List.mem_of_getLast? h.terminated

theorem isPrefix (h : Cut s c) : s <+: c := by
  obtain ⟨x, rfl, -⟩ := h.tail
  exact List.prefix_append s x

theorem drop {u : List Char} (hn : s ≠ []) (h : Cut (u ++ s) c) :
    ∃ d, c = u ++ d ∧ Cut s d := by
  obtain ⟨x, rfl, hx⟩ := h.tail
  refine ⟨s ++ x, List.append_assoc .., ?_, x, rfl, hx⟩
  rw [← h.terminated, List.getLast?_append_of_ne_nil _ hn]

theorem takeWhile (h : Cut s c) {p : Char → Bool} (hp : p ';' = false) :
    c.takeWhile p = s.takeWhile p ∧ Cut (s.dropWhile p) (c.dropWhile p) := by
  have hn : s.dropWhile p ≠ [] := by
    intro hnil
    have := List.dropWhile_eq_nil_iff.1 hnil _ h.mem
    rw [hp] at this
    cases this
  have hs : s.takeWhile p ++ s.dropWhile p = s := List.takeWhile_append_dropWhile
  obtain ⟨d, hd, hcut⟩ := drop hn (hs.symm ▸ h)
  have hall : ∀ a ∈ s.takeWhile p, p a := fun a ha => List.mem_takeWhile_imp ha
  have hstop : ∀ a ∈ d.head?, ¬ p a := by
    intro a ha
    rw [hcut.head?] at ha
    have := List.head?_dropWhile_not p s
    rw [Option.mem_def.1 ha] at this
    simpa using this
  have hd' : d.takeWhile p = [] ∧ d.dropWhile p = d := by
    cases d with
    | nil => exact ⟨rfl, rfl⟩
    | cons a d =>
        have ha := hstop a rfl
        exact ⟨List.takeWhile_cons_of_neg ha, List.dropWhile_cons_of_neg ha⟩
  rw [hd, List.takeWhile_append_of_pos hall, List.dropWhile_append_of_pos hall, hd'.1, hd'.2,
    List.append_nil]
  exact ⟨rfl, hcut⟩

theorem trimStart (h : Cut s c) : Cut (trimStart s) (trimStart c) :=
  (h.takeWhile (p := isBlank) (by decide)).2

theorem after? (h : Cut s c) {k : List Char} (hk : ';' ∉ k) :
    Option.Rel Cut (after? k s) (after? k c) := by
  cases hs : Text.after? k s with
  | some r =>
      rw [after?_eq_some_iff.1 hs] at h
      have hn : r ≠ [] := by
        rintro rfl
        have := h.mem
        rw [List.append_nil] at this
        exact hk this
      obtain ⟨d, rfl, hcut⟩ := drop hn h
      rw [after?_append]
      exact .some hcut
  | none =>
      have hc : Text.after? k c = none := by
        refine Option.eq_none_iff_forall_ne_some.2 fun r hr => ?_
        have hpk : k <+: c := ⟨r, (after?_eq_some_iff.1 hr).symm⟩
        rcases List.prefix_or_prefix_of_prefix hpk h.isPrefix with ⟨t, ht⟩ | hsk
        · rw [after?_eq_some_iff.2 ht.symm] at hs
          cases hs
        · exact hk (hsk.subset h.mem)
      rw [hc]
      exact .none

theorem startsWith (h : Cut s c) {k : List Char} (hk : ';' ∉ k) :
    startsWith k c = startsWith k s :=
  (isSome_of_rel (h.after? hk)).symm

theorem until? (h : Cut s c) {m : Char} (hm : m ≠ ';' ∧ m ≠ '}' ∧ isBlank m = false) :
    Option.Rel CutPair (until? m s) (until? m c) := by
  obtain ⟨hsemi, hbrace, hblank⟩ := hm
  cases hs : Text.until? m s with
  | some r =>
      obtain ⟨hf, he⟩ := until?_eq_some_iff.1 hs
      have hn : r.2 ≠ [] := by
        intro hn
        have hl := h.terminated
        rw [he, hn, List.getLast?_concat] at hl
        exact hsemi (Option.some.inj hl)
      rw [he, ← List.singleton_append, ← List.append_assoc] at h
      obtain ⟨d, rfl, hcut⟩ := drop hn h
      rw [List.append_assoc, List.singleton_append, until?_eq_some_iff.2 ⟨hf, rfl⟩]
      exact .some ⟨rfl, hcut⟩
  | none =>
      obtain ⟨x, rfl, hx⟩ := h.tail
      have hmx : m ∉ x := by
        intro hm
        rcases hx m hm with hb | hb | hb
        · rw [hblank] at hb
          cases hb
        · exact hbrace hb
        · exact hsemi hb
      rw [until?_eq_none_iff] at hs
      have hc : Text.until? m (s ++ x) = none := until?_eq_none_iff.2 (by simp [hs, hmx])
      rw [hc]
      exact .none

theorem run? (h : Cut s c) {p : Char → Bool} (hp : p ';' = false) :
    Option.Rel CutPair (run? p s) (run? p c) := by
  obtain ⟨htake, hdrop⟩ := h.takeWhile hp
  rw [Text.run?, Text.run?, htake]
  cases s.takeWhile p with
  | nil => exact .none
  | cons a w => exact .some ⟨rfl, hdrop⟩

theorem word? (h : Cut s c) : Option.Rel CutPair (word? s) (word? c) :=
  h.run? (by decide)

theorem digits? (h : Cut s c) : Option.Rel CutPair (digits? s) (digits? c) :=
  h.run? (by decide)

theorem firstWord (h : Cut s c) :
    firstWord c = firstWord s ∧ Cut (s.dropWhile isWord) (c.dropWhile isWord) :=
  h.takeWhile (by decide)

theorem afterBlanks? (h : Cut s c) : Option.Rel Cut (afterBlanks? s) (afterBlanks? c) := by
  have htrim := h.trimStart
  obtain ⟨a, t, rfl⟩ := List.exists_cons_of_ne_nil h.ne_nil
  obtain ⟨d, rfl⟩ := List.head?_eq_some_iff.1 h.head?
  rw [Text.afterBlanks?, Text.afterBlanks?]
  split
  case isTrue ha =>
      have hskip : ∀ u : List Char, Text.trimStart (a :: u) = Text.trimStart u := fun u =>
        trimStart_append (g := [a]) (by simpa [Blank] using ha)
      rw [hskip, hskip] at htrim
      exact .some htrim
  case isFalse => exact .none

theorem afterKeyword? (h : Cut s c) {keywords : List String}
    (hk : ∀ k ∈ keywords, ∀ c ∈ k.toList, isWord c) :
    Option.Rel Cut (afterKeyword? keywords s) (afterKeyword? keywords c) := by
  obtain ⟨hword, hrest⟩ := h.firstWord
  rw [afterKeyword?_eq hk, afterKeyword?_eq hk, hword]
  split
  · exact hrest.afterBlanks?
  · exact .none

theorem afterType? (h : Cut s c) : Option.Rel Cut (afterType? s) (afterType? c) := by
  have hmap := h.after? (k := "map<".toList) (by decide)
  rw [Line.afterType?, Line.afterType?]
  generalize Text.after? "map<".toList s = a at hmap
  generalize Text.after? "map<".toList c = b at hmap
  cases hmap with
  | some hr =>
      refine rel_bind (hr.until? ⟨by decide, by decide, by decide⟩) fun p q hpq => ?_
      obtain ⟨hfst, hcut⟩ := hpq
      dsimp only
      rw [← hfst]
      split
      · exact .none
      · exact .some hcut
  | none =>
      obtain ⟨htake, hdrop⟩ := h.takeWhile (p := fun c => isWord c || c == '.') (by decide)
      dsimp only
      rw [htake]
      split
      · exact .some hdrop
      · exact .none

theorem typedName? (h : Cut s c) : Option.Rel CutPair (typedName? s) (typedName? c) :=
  rel_bind (rel_bind h.afterType? fun _ _ hr => hr.afterBlanks?) fun _ _ hr => hr.word?

theorem isFieldShaped (h : Cut s c) : isFieldShaped c = isFieldShaped s := by
  have hlabel := rel_bind (h.afterKeyword? word_of_fieldLabel) fun _ _ hr => hr.typedName?
  rw [Line.isFieldShaped, Line.isFieldShaped]
  exact congrArg₂ _ (isSome_of_rel hlabel).symm (isSome_of_rel h.typedName?).symm

theorem isNestedDefinition (h : Cut s c) : isNestedDefinition c = isNestedDefinition s := by
  have hword : c.takeWhile isWord = s.takeWhile isWord := h.firstWord.1
  rw [Line.isNestedDefinition, Line.isNestedDefinition, hword]

theorem endsStatement (h : Cut s c) : endsStatement c = endsStatement s := by
  rw [Line.endsStatement, Line.endsStatement, h.head?]

theorem afterNumber? (h : Cut s c) : Option.Rel Cut (afterNumber? s) (afterNumber? c) := by
  have hn := h.ne_nil
  obtain ⟨a, t, rfl⟩ := List.exists_cons_of_ne_nil hn
  obtain ⟨d, rfl⟩ := List.head?_eq_some_iff.1 h.head?
  by_cases ha : a = '='
  · subst ha
    have ht : t ≠ [] := by
      rintro rfl
      exact absurd h.terminated (by decide)
    obtain ⟨d', hd, hcut⟩ := drop (u := ['=']) ht h
    cases hd
    exact rel_map hcut.trimStart.digits? fun _ _ hr => hr.2.trimStart
  · have hnone : ∀ u, Line.afterNumber? (a :: u) = none := by
      intro u
      rw [Line.afterNumber?]
      rintro _ ⟨⟩
      exact ha rfl
    rw [hnone, hnone]
    exact .none

theorem hasTerminatedNumber (h : Cut s c) :
    hasTerminatedNumber c = hasTerminatedNumber s := by
  obtain ⟨x, rfl, hx⟩ := h.tail
  have hpart : ∀ t, t ≠ [] → t <:+ s → Cut t (t ++ x) := by
    rintro t hn ⟨u, rfl⟩
    exact ⟨by rw [← h.terminated, List.getLast?_append_of_ne_nil _ hn], x, rfl, hx⟩
  have hany : ∀ t, t ≠ [] → t <:+ s → ((Line.afterNumber? (t ++ x)).any Line.endsStatement) =
      (Line.afterNumber? t).any Line.endsStatement := fun t hn ht =>
    (any_of_rel (hpart t hn ht).afterNumber? fun _ _ hr => hr.endsStatement.symm).symm
  have hnone : ∀ t, t <:+ x → ¬ (Line.afterNumber? t).any Line.endsStatement := by
    intro t ht hp
    cases t with
    | nil => cases hp
    | cons a t =>
        by_cases ha : a = '='
        · rcases hx a (ht.subset (List.mem_cons_self ..)) with hb | hb | hb <;>
            exact absurd (ha ▸ hb) (by decide)
        · have : Line.afterNumber? (a :: t) = none := by
            rw [Line.afterNumber?]
            rintro _ ⟨⟩
            exact ha rfl
          rw [this] at hp
          cases hp
  rw [Line.hasTerminatedNumber, Bool.eq_iff_iff, someEnd_iff, someEnd_iff]
  constructor
  · rintro ⟨t, ⟨u, hu⟩, ht⟩
    rcases List.append_eq_append_iff.1 hu with ⟨v, hv, hvx⟩ | ⟨v, hv, hvx⟩
    · by_cases hn : v = []
      · rw [hn, List.nil_append] at hvx
        exact absurd ht (hnone t (hvx ▸ List.suffix_refl x))
      · refine ⟨v, ⟨u, hv.symm⟩, ?_⟩
        rw [hvx, hany v hn ⟨u, hv.symm⟩] at ht
        exact ht
    · exact absurd ht (hnone t ⟨v, hvx.symm⟩)
  · rintro ⟨t, ht, hp⟩
    have hn : t ≠ [] := by
      rintro rfl
      cases hp
    obtain ⟨u, rfl⟩ := ht
    exact ⟨t ++ x, ⟨u, (List.append_assoc ..).symm⟩, by rw [hany t hn ⟨u, rfl⟩, hp]⟩

theorem afterEquals? (h : Cut s c) : Option.Rel Cut (afterEquals? s) (afterEquals? c) := by
  have htrim := h.trimStart
  obtain ⟨a, t, ht⟩ := List.exists_cons_of_ne_nil htrim.ne_nil
  obtain ⟨d, hd⟩ := List.head?_eq_some_iff.1 (htrim.head?.trans (by rw [ht]; rfl))
  rw [ht, hd] at htrim
  rw [Line.afterEquals?, Line.afterEquals?, ht, hd]
  by_cases ha : a = '='
  · subst ha
    have hn : t ≠ [] := by
      rintro rfl
      exact absurd htrim.terminated (by decide)
    obtain ⟨d', he, hcut⟩ := drop (u := ['=']) hn htrim
    cases he
    exact .some hcut.trimStart
  · split
    case h_1 he => exact absurd (List.cons.inj he).1 ha
    case h_2 =>
        split
        case h_1 he => exact absurd (List.cons.inj he).1 ha
        case h_2 => exact .none

theorem assignment? (h : Cut s c) : Option.Rel CutPair (assignment? s) (assignment? c) := by
  refine rel_bind h.word? fun p q hpq => rel_bind hpq.2.afterEquals? fun r r' hr => ?_
  obtain ⟨hname, -⟩ := hpq
  rw [hname]
  obtain ⟨a, t, rfl⟩ := List.exists_cons_of_ne_nil hr.ne_nil
  obtain ⟨d, rfl⟩ := List.head?_eq_some_iff.1 hr.head?
  by_cases ha : a = '-'
  · subst ha
    have hn : t ≠ [] := by
      rintro rfl
      exact absurd hr.terminated (by decide)
    obtain ⟨d', he, hcut⟩ := drop (u := ['-']) hn hr
    cases he
    exact rel_map hcut.digits? fun _ _ hd => ⟨congrArg (Assignment.mk q.1 true) hd.1, hd.2⟩
  · split
    case h_1 he => exact absurd (List.cons.inj he).1 ha
    case h_2 =>
        split
        case h_1 he => exact absurd (List.cons.inj he).1 ha
        case h_2 =>
            exact rel_map hr.digits? fun _ _ hd => ⟨congrArg (Assignment.mk q.1 false) hd.1, hd.2⟩

theorem isTerminatedValue (h : Cut s c) : isTerminatedValue c = isTerminatedValue s :=
  (any_of_rel h.assignment? fun _ _ hr => hr.2.trimStart.endsStatement.symm).symm

theorem afterParens? (h : Cut s c) : Option.Rel Cut (afterParens? s) (afterParens? c) := by
  obtain ⟨a, t, rfl⟩ := List.exists_cons_of_ne_nil h.ne_nil
  obtain ⟨d, rfl⟩ := List.head?_eq_some_iff.1 h.head?
  by_cases ha : a = '('
  · subst ha
    have hn : t ≠ [] := by
      rintro rfl
      exact absurd h.terminated (by decide)
    obtain ⟨d', he, hcut⟩ := drop (u := ['(']) hn h
    cases he
    exact rel_map (hcut.until? ⟨by decide, by decide, by decide⟩) fun _ _ hr => hr.2
  · have hnone : ∀ u, Line.afterParens? (a :: u) = none := by
      intro u
      rw [Line.afterParens?]
      rintro _ ⟨⟩
      exact ha rfl
    rw [hnone, hnone]
    exact .none

theorem isRpc (h : Cut s c) : isRpc c = isRpc s := by
  have hrequest := rel_bind (rel_bind
    (h.afterKeyword? (List.forall_mem_singleton.2 (by decide : ∀ c ∈ "rpc".toList, isWord c)))
    fun _ _ hr => hr.word?) fun _ _ hr => hr.2.trimStart.afterParens?
  have hresponse := rel_bind (rel_bind (rel_bind hrequest fun _ _ hr => hr.afterBlanks?)
    fun _ _ hr => hr.afterKeyword?
      (List.forall_mem_singleton.2 (by decide : ∀ c ∈ "returns".toList, isWord c)))
    fun _ _ hr => hr.afterParens?
  exact (any_of_rel hresponse fun _ _ hr => by rw [hr.trimStart.head?]).symm

theorem startsWith_semicolon (h : Cut s c) :
    Text.startsWith ";".toList c = Text.startsWith ";".toList s := by
  obtain ⟨a, t, rfl⟩ := List.exists_cons_of_ne_nil h.ne_nil
  obtain ⟨d, rfl⟩ := List.head?_eq_some_iff.1 h.head?
  have hread : ∀ u, Text.startsWith ";".toList (a :: u) = decide (';' = a) := by
    intro u
    by_cases ha : ';' = a
    · subst ha
      rfl
    · rw [decide_eq_false ha]
      exact congrArg Option.isSome (if_neg ha)
  rw [hread, hread]

theorem syntaxValue? (h : Cut s c) : syntaxValue? c = syntaxValue? s := by
  have hrest := rel_bind (h.after? (k := "syntax".toList) (by decide))
    fun _ _ hr => hr.afterEquals?
  rw [Line.syntaxValue?, Line.syntaxValue?]
  generalize (Text.after? "syntax".toList s).bind Line.afterEquals? = p at hrest
  generalize (Text.after? "syntax".toList c).bind Line.afterEquals? = q at hrest
  cases hrest with
  | none => rfl
  | @some r r' hr =>
      obtain ⟨a, t, rfl⟩ := List.exists_cons_of_ne_nil hr.ne_nil
      obtain ⟨d, rfl⟩ := List.head?_eq_some_iff.1 hr.head?
      by_cases ha : a = '"'
      · subst ha
        have hn : t ≠ [] := by
          rintro rfl
          exact absurd hr.terminated (by decide)
        obtain ⟨d', he, hcut⟩ := drop (u := ['"']) hn hr
        cases he
        refine (bind_of_rel (hcut.until? (m := '"') ⟨by decide, by decide, by decide⟩)
          fun v w hvw => ?_).symm
        dsimp only
        rw [hvw.1, hvw.2.trimStart.startsWith_semicolon]
      · split
        case h_1 he => exact absurd (List.cons.inj (Option.some.inj he)).1 ha
        case h_2 =>
            split
            case h_1 he => exact absurd (List.cons.inj (Option.some.inj he)).1 ha
            case h_2 => rfl

theorem openerAfter (h : Cut s c) (kind : BlockKind) :
    (openerAfter kind c).isSome = (openerAfter kind s).isSome := by
  have hblanks := isSome_of_rel h.afterBlanks?
  obtain ⟨a, t, rfl⟩ := List.exists_cons_of_ne_nil h.ne_nil
  obtain ⟨d, rfl⟩ := List.head?_eq_some_iff.1 h.head?
  by_cases ha : a = '{'
  · rw [ha]
    rfl
  · have hread : ∀ u, (Line.openerAfter kind (a :: u)).isSome =
        (Text.afterBlanks? (a :: u)).isSome := by
      intro u
      unfold Line.openerAfter
      split
      case h_1 he => cases he
      case h_2 he => exact absurd (List.cons.inj he).1 ha
      case h_3 => exact Option.isSome_map ..
    rw [hread, hread, hblanks]

theorem opener? (h : Cut s c) : (opener? c).isSome = (opener? s).isSome := by
  obtain ⟨hword, hrest⟩ := h.firstWord
  have hsome : ∀ t, (Line.opener? t).isSome ↔ ∃ kind ∈ BlockKind.declared,
      kind.word.toList = Line.firstWord t ∧
        (Line.openerAfter kind (t.dropWhile isWord)).isSome := by
    intro t
    simp only [Option.isSome_iff_exists, opener?_eq_some_iff]
    constructor
    · rintro ⟨o, kind, hk, hw, ho⟩
      exact ⟨kind, hk, hw, o, ho⟩
    · rintro ⟨kind, hk, hw, o, ho⟩
      exact ⟨o, kind, hk, hw, ho⟩
  rw [Bool.eq_iff_iff, hsome, hsome, hword]
  simp only [hrest.openerAfter]

end Cut

end SchemaLint.Line
