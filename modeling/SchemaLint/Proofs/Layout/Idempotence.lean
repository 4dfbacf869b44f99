import SchemaLint.Proofs.Layout.SecondReading

/-! Formatting twice. The second time changes nothing exactly if the tokens are settled. Apart from
enum values that are keywords, they are settled unless a line is split only once it has its normal
spacing, or an assignment has white space left before a semicolon. -/

namespace SchemaLint.Layout
open SchemaLint.Text SchemaLint.Line

/-- The line of a token is split when it is read again. -/
def Token.Splits (t : Token) : Prop :=
  t.category ≠ .comment ∧ isComment (trim t.text) = false ∧
    statementAndCloser? (trim t.text) ≠ none

/-- The spacing of an assignment is not final. -/
def Token.Loose (t : Token) : Prop :=
  t.category.assigns ∧ spaceAssignment t.text ≠ t.text

/-- An enum value is named by a keyword, which a space now follows. -/
def Token.NamedByKeyword (t : Token) : Prop :=
  t.category = .enumValue ∧ ¬ Keywordless t.text

/-- Two tokens are the same, but for a method that has become nothing special. -/
def Token.Like (t u : Token) : Prop :=
  u = t ∨ t.category = .rpc ∧ u = { t with category := .other }

theorem Token.Like.text {t u : Token} (h : t.Like u) : u.text = t.text := by
  rcases h with rfl | ⟨-, rfl⟩ <;> rfl

theorem needsBlank_like {p p' t t' : Token} (hp : p.Like p') (ht : t.Like t') :
    needsBlank p' t' = needsBlank p t := by
  rcases hp with rfl | ⟨hp, rfl⟩ <;> rcases ht with rfl | ⟨ht, rfl⟩
  · rfl
  · cases hc : p'.category <;> simp [needsBlank, ht, hc, Category.isHeader]
  · simp [needsBlank, hp, Category.isHeader]
  · simp [needsBlank, hp, ht, Category.isHeader]

theorem blankBetween_again {prev : Option Token} {t : Token} (hp : ∀ p ∈ prev, p.Like p.again)
    (ht : t.Like t.again) : blankBetween (prev.map Token.again) t.again = blankBetween prev t := by
  cases prev with
  | none => rfl
  | some p => exact needsBlank_like (hp p rfl) ht

/-- A token of code is read again as itself, or it is loose or named by a keyword. -/
theorem again_lineToken_cases (d : Nat) (l : List Char) :
    (lineToken d l).Like (lineToken d l).again ∧ ¬ (lineToken d l).Loose ∨
      (lineToken d l).Loose ∧ (lineToken d l).again.text ≠ (lineToken d l).text ∨
      (lineToken d l).NamedByKeyword := by
  rw [again_lineToken]
  have hread := readLine_again (trim_trim l) (show readLine (trim l) =
    ((lineToken d l).category, (lineToken d l).text) from rfl)
  have hdepth : (lineToken d l).depth = d := rfl
  generalize lineToken d l = t at *
  rcases hread with ⟨hc, h⟩ | ⟨hc, h⟩ | ⟨hc, h⟩ | h
  · exact .inl ⟨.inl (by rw [lineToken, h, ← hdepth]), fun hl => hc hl.1⟩
  · refine .inl ⟨.inr ⟨hc, by rw [lineToken, h, ← hdepth]⟩, fun hl => ?_⟩
    rw [Token.Loose, hc] at hl
    rcases hl.1 with h | h <;> cases h
  · by_cases hfix : spaceAssignment t.text = t.text
    · exact .inl ⟨.inl (by rw [lineToken, h, hfix, ← hdepth]), fun hl => hl.2 hfix⟩
    · refine .inr (.inl ⟨⟨hc, hfix⟩, ?_⟩)
      rw [lineToken, h]
      exact hfix
  · exact .inr (.inr h)

/-- A token read again as itself is settled with what follows unless it splits. -/
theorem settled_cons {prev : Option Token} {t : Token} {ts : List Token}
    (hp : ∀ p ∈ prev, p.Like p.again) (ht : t.Like t.again) (hloose : ¬ t.Loose)
    (hsteady : t.Steady ↔ ¬ t.Splits)
    (hbrace : ¬ (t.again.wantsBrace ∧ ∃ u ∈ ts.head?, trim u.text = ['{']))
    (ih : Settled (some t) ts ↔ ∀ u ∈ ts, ¬ u.Splits ∧ ¬ u.Loose) :
    Settled prev (t :: ts) ↔ ∀ u ∈ t :: ts, ¬ u.Splits ∧ ¬ u.Loose := by
  rw [Settled, blankBetween_again hp ht, hsteady, ih, List.forall_mem_cons]
  simp only [hbrace, hloose, not_false_eq_true, and_true, true_and]

/-- So is a token that is no assignment and waits for no brace. -/
theorem settled_cons_same {prev : Option Token} {t : Token} {ts : List Token}
    (hp : ∀ p ∈ prev, p.Like p.again) (ht : t.again = t) (hassigns : ¬ t.category.assigns)
    (hwants : t.wantsBrace = false) (hsteady : t.Steady) (hsplits : ¬ t.Splits)
    (ih : ∀ {prev : Option Token}, (∀ p ∈ prev, p.Like p.again) →
      (Settled prev ts ↔ ∀ u ∈ ts, ¬ u.Splits ∧ ¬ u.Loose)) :
    Settled prev (t :: ts) ↔ ∀ u ∈ t :: ts, ¬ u.Splits ∧ ¬ u.Loose := by
  have hlike : t.Like t.again := .inl ht
  refine settled_cons hp hlike (fun hl => hassigns hl.1) (iff_of_true hsteady hsplits)
    (fun hw => ?_) (ih fun p hp => Option.some.inj hp ▸ hlike)
  rw [ht, hwants] at hw
  cases hw.1

theorem settled_cons_lineToken {prev : Option Token} {d : Nat} {l : List Char} {ts : List Token}
    (hp : ∀ p ∈ prev, p.Like p.again) (hkeyword : ¬ (lineToken d l).NamedByKeyword)
    (hbrace : (lineToken d l).wantsBrace → ∀ u ∈ ts.head?, trim u.text ≠ ['{'])
    (ih : ∀ {prev : Option Token}, (∀ p ∈ prev, p.Like p.again) →
      (Settled prev ts ↔ ∀ u ∈ ts, ¬ u.Splits ∧ ¬ u.Loose)) :
    Settled prev (lineToken d l :: ts) ↔ ∀ u ∈ lineToken d l :: ts, ¬ u.Splits ∧ ¬ u.Loose := by
  have hsteady := steady_lineToken (d := d) (l := l)
  rw [← again_lineToken] at hsteady
  rcases again_lineToken_cases d l with ⟨hlike, hloose⟩ | ⟨hloose, hne⟩ | hnamed
  · refine settled_cons hp hlike hloose ?_ ?_ (ih fun p hp => Option.some.inj hp ▸ hlike)
    · by_cases hc : (lineToken d l).category = .comment
      · exact iff_of_true (.inl hc) fun hs => hs.1 hc
      · rw [hsteady, hlike.text, Token.Splits]
        cases isComment (trim (lineToken d l).text) <;> simp [hc]
    · rintro ⟨hw, u, hu, hub⟩
      rcases hlike with hagain | ⟨-, hagain⟩
      · rw [hagain] at hw
        exact hbrace hw u hu hub
      · rw [hagain] at hw
        cases hw
  · exact iff_of_false (fun hs => hne (hsteady.1 hs.1).2)
      fun hall => (hall _ (List.mem_cons_self ..)).2 hloose
  · exact absurd hnamed hkeyword

/-- Tokens none of which is named by a keyword are settled if and only if none splits or is
loose. -/
theorem Reads.settled_iff {d : Nat} {b : Bool} {ls : List (List Char)} {ts : List Token}
    (h : Reads d b ls ts) (hk : ∀ t ∈ ts, ¬ t.NamedByKeyword) {prev : Option Token}
    (hp : ∀ p ∈ prev, p.Like p.again) :
    Settled prev ts ↔ ∀ t ∈ ts, ¬ t.Splits ∧ ¬ t.Loose := by
  induction h generalizing prev with
  | done => simp [Settled]
  | blank _ _ ih => exact ih hk hp
  | split _ _ _ ih => exact ih hk hp
  | @block d b l ls ts _ _ ih =>
      exact settled_cons_same hp rfl (by simp [Category.assigns]) rfl (.inl rfl)
        (fun hs => hs.1 rfl) (ih (List.forall_mem_cons.1 hk).2)
  | @close d l ls ts hc _ ih =>
      refine settled_cons_same hp rfl (by simp [Category.assigns]) rfl (.inr (.inl rfl))
        (fun hs => hs.2.2 ?_) (ih (List.forall_mem_cons.1 hk).2)
      rw [trim_trim]
      exact statementAndCloser?_of_closing hc
  | @line d l ls ts hcode hbrace h ih =>
      obtain ⟨hkt, hks⟩ := List.forall_mem_cons.1 hk
      refine settled_cons_lineToken hp hkt (fun hw u hu hub => ?_) (ih hks)
      obtain ⟨ts', rfl⟩ := List.head?_eq_some_iff.1 hu
      exact hbrace hw (h.head.2 hub)
  | @braced d l brace gap ls ts _ hw _ _ _ ih =>
      have hcategory : (lineToken d l).braced.category = .block := (Token.wantsBrace_iff.1 hw).1
      have hagain := braced_again hw
      have hwhole := (isCode_braced hw).2
      exact settled_cons_same hp hagain (by simp [hcategory, Category.assigns])
        (wantsBrace_braced _) (.inr (.inr ⟨.inr hwhole, by rw [hagain]⟩))
        (fun hs => hs.2.2 hwhole) (ih (List.forall_mem_cons.1 hk).2)

/-- Formatting the output changes it unless all tokens are settled. Apart from enum values named by
keywords, that is so unless a line splits or is loose. -/
theorem format_format_iff (x : List Char) :
    (Source.format (Source.format x) = Source.format x ↔
        Settled none (tokens (splitClosers (Source.lines x)))) ∧
      ((∀ t ∈ tokens (splitClosers (Source.lines x)), ¬ t.NamedByKeyword) →
        (Source.format (Source.format x) = Source.format x ↔
          ∀ t ∈ tokens (splitClosers (Source.lines x)), ¬ t.Splits ∧ ¬ t.Loose)) := by
  have h := reads_iff.2 (rfl : tokens (splitClosers (Source.lines x)) = _)
  obtain ⟨us, hus, hformat⟩ := exists_reads_again h
  have hsettled := h.again_iff (by simp) hus
  rw [hformat]
  exact ⟨hsettled, fun hk => hsettled.trans (h.settled_iff hk (by simp))⟩

/-- Of two semicolons with white space before them, one is tightened at a time. -/
theorem format_not_idempotent :
    ¬ ∀ x : List Char, Source.format (Source.format x) = Source.format x := by
  intro h
  have := h "message A \x7b\n  int32 a = 1 ; ;\n\x7d\n".toList
  revert this
  decide

end SchemaLint.Layout
