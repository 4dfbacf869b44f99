import SchemaLint.Proofs.Structure.Checks
import SchemaLint.Proofs.Structure.Nesting

/-! States that are alike. Whether a line has faults depends on the kinds of the open blocks and of
a waiting opener, not on their names and lines; and lines with the same braces and openers leave
states that are alike. -/

namespace SchemaLint.Structure
open SchemaLint.Text SchemaLint.Line

/-- The same kinds of blocks are open, the same kind of opener waits, and both are inside a block
comment or both outside. -/
structure Alike (s t : State) : Prop where
  stack : s.stack.map Block.kind = t.stack.map Block.kind
  pending : s.pending.map Block.kind = t.pending.map Block.kind
  inComment : s.inComment = t.inComment

/-- The same for the blocks of a line. -/
structure AlikeBlocks (b d : Blocks) : Prop where
  stack : b.stack.map Block.kind = d.stack.map Block.kind
  pending : b.pending.map Block.kind = d.pending.map Block.kind
  claimed : b.claimed = d.claimed
  faults : b.faults = [] ↔ d.faults = []

/-- An opener but for its name: its kind, whether it lacks a name and whether nothing follows. -/
def outline (o : Opener) : BlockKind × Bool × Bool :=
  (o.kind, o.name = [], trim o.rest = [])

/-- Two lines of code with the same braces and the same opener, but for its name. -/
structure SameBraces (c d : List Char) : Prop where
  head : c.head? = some '{' ↔ d.head? = some '{'
  opened : c.count '{' = d.count '{'
  closed : c.count '}' = d.count '}'
  opener : (opener? c).map outline = (opener? d).map outline

theorem SameBraces.refl (c : List Char) : SameBraces c c :=
  ⟨.rfl, rfl, rfl, rfl⟩

namespace Alike
variable {s t u : State}

theorem refl (s : State) : Alike s s := ⟨rfl, rfl, rfl⟩

theorem symm (h : Alike s t) : Alike t s :=
  ⟨h.stack.symm, h.pending.symm, h.inComment.symm⟩

theorem trans (h : Alike s t) (k : Alike t u) : Alike s u :=
  ⟨h.stack.trans k.stack, h.pending.trans k.pending, h.inComment.trans k.inComment⟩

theorem context (h : Alike s t) : s.context = t.context := by
  rw [State.context, State.context, ← List.head?_map, ← List.head?_map, h.stack]

theorem isNone (h : Alike s t) : s.pending.isNone = t.pending.isNone := by
  rw [← Option.isNone_map (f := Block.kind), h.pending, Option.isNone_map]

theorem atTopLevel (h : Alike s t) : s.atTopLevel = t.atTopLevel := by
  rw [State.atTopLevel, State.atTopLevel, h.isNone, ← List.isEmpty_map (f := Block.kind), h.stack,
    List.isEmpty_map]

end Alike

section
variable {s t : State} {c d : List Char} {b e : Blocks}

theorem option_cases {α β γ : Type} {f : α → γ} {g : β → γ} {o : Option α} {p : Option β}
    (h : o.map f = p.map g) :
    o = none ∧ p = none ∨ ∃ x y, o = some x ∧ p = some y ∧ f x = g y := by
  cases o with
  | none => exact .inl ⟨rfl, Option.map_eq_none_iff.1 h.symm⟩
  | some x =>
      obtain ⟨y, hy, he⟩ := Option.map_eq_some_iff.1 h.symm
      exact .inr ⟨x, y, rfl, hy, he.symm⟩

theorem settle_alike (h : Alike s t) (hb : SameBraces c d) :
    AlikeBlocks (settle s c) (settle t d) := by
  unfold settle
  rcases option_cases h.pending with ⟨hs, ht⟩ | ⟨x, y, hs, ht, hk⟩
  · rw [hs, ht]
    exact ⟨h.stack, rfl, rfl, .rfl⟩
  · rw [hs, ht]
    dsimp only
    by_cases hc : c.head? = some '{'
    · rw [if_pos hc, if_pos (hb.head.1 hc)]
      exact ⟨congrArg₂ List.cons hk h.stack, rfl, rfl, .rfl⟩
    · rw [if_neg hc, if_neg fun hd => hc (hb.head.2 hd)]
      exact ⟨h.stack, rfl, rfl, by simp⟩

theorem SameBraces.contains (hb : SameBraces c d) : c.contains '{' = d.contains '{' := by
  rw [Bool.eq_iff_iff, List.contains_iff_mem, List.contains_iff_mem, ← List.count_pos_iff,
    ← List.count_pos_iff, hb.opened]

theorem declare_alike (h : AlikeBlocks b e) (hb : SameBraces c d) (n m : Nat) :
    AlikeBlocks (declare n c b) (declare m d e) := by
  unfold declare
  rcases option_cases hb.opener with ⟨hc, hd⟩ | ⟨o, p, hc, hd, ho⟩
  · rw [hc, hd]
    exact h
  · simp only [outline, Prod.mk.injEq, decide_eq_decide] at ho
    obtain ⟨hkind, hname, hrest⟩ := ho
    have hnameless : ∀ fs gs : List Fault, (fs = [] ↔ gs = []) →
        (fs ++ (if o.name = [] then [{ line := n, cause := .missingName o.kind }] else []) = [] ↔
          gs ++ (if p.name = [] then [{ line := m, cause := .missingName p.kind }] else []) =
            []) := by
      intro fs gs hfs
      by_cases ho : o.name = []
      · simp [ho, hname.1 ho]
      · simp [ho, mt hname.2 ho, hfs]
    rw [hc, hd]
    dsimp only
    rw [hb.contains]
    split
    case isTrue =>
        exact ⟨congrArg₂ List.cons hkind h.stack, h.pending, rfl, hnameless _ _ h.faults⟩
    case isFalse =>
        by_cases hr : trim o.rest = []
        · rw [if_pos hr, if_pos (hrest.1 hr)]
          exact ⟨h.stack, congrArg some hkind, h.claimed, hnameless _ _ h.faults⟩
        · rw [if_neg hr, if_neg fun hp => hr (hrest.2 hp)]
          exact ⟨h.stack, h.pending, h.claimed, by simp⟩

theorem balance_alike (h : AlikeBlocks b e) (hb : SameBraces c d) (n m : Nat) :
    AlikeBlocks (balance n c b) (balance m d e) := by
  have hlength : b.stack.length = e.stack.length := by simpa using congrArg List.length h.stack
  refine ⟨?_, h.pending, h.claimed, ?_⟩
  · simp only [balance, List.map_drop, List.map_append, List.map_replicate, h.stack, hb.opened,
      hb.closed, h.claimed]
  · simp only [balance, List.append_eq_nil_iff, h.faults, List.replicate_eq_nil_iff,
      List.length_append, List.length_replicate, hlength, hb.opened, hb.closed, h.claimed]

theorem blocks_alike (h : Alike s t) (hb : SameBraces c d) (n m : Nat) :
    AlikeBlocks (blocks s n c) (blocks t m d) :=
  balance_alike (declare_alike (settle_alike h hb) hb n m) hb n m

end

/-- The checks of a line of code find nothing, its blocks apart. -/
structure Sound (context : Option BlockKind) (atTopLevel : Bool) (code : List Char) : Prop where
  member : memberCauses context code = []
  method : rpcCauses context code = []
  version : syntaxCauses code = []
  trailing : trailingFaults 0 0 code = []
  topLevel : topLevelCauses atTopLevel code = []
  semicolon : Line.lacksSemicolon code = false

theorem trailingFaults_eq_nil_iff {n m i j : Nat} {code : List Char} :
    trailingFaults n i code = [] ↔ trailingFaults m j code = [] := by
  simp only [trailingFaults]
  split <;> simp

theorem semicolonFaults_eq_nil_iff {n i : Nat} {code : List Char} :
    semicolonFaults n i code = [] ↔ Line.lacksSemicolon code = false := by
  rw [semicolonFaults]
  split
  case isTrue h => simp [h]
  case isFalse h => simpa using h

theorem scanCode_eq_nil_iff {s : State} {n i : Nat} {code : List Char} :
    (scanCode s n i code).2 = [] ↔
      Sound s.context s.atTopLevel code ∧ (blocks s n code).faults = [] := by
  simp only [scanCode, List.append_eq_nil_iff, List.map_eq_nil_iff, semicolonFaults_eq_nil_iff,
    trailingFaults_eq_nil_iff (n := n) (m := 0) (i := i) (j := 0)]
  constructor
  · rintro ⟨⟨⟨⟨⟨hm, hb⟩, hr, hs⟩, ht⟩, hl⟩, hc⟩
    exact ⟨⟨hm, hr, hs, ht, hl, hc⟩, hb⟩
  · rintro ⟨⟨hm, hr, hs, ht, hl, hc⟩, hb⟩
    exact ⟨⟨⟨⟨⟨hm, hb⟩, hr, hs⟩, ht⟩, hl⟩, hc⟩

/-- Lines of code that have the same braces and both pass the checks are scanned alike. -/
theorem scanCode_alike {s t : State} (h : Alike s t) {c d : List Char} (hb : SameBraces c d)
    (n m i j : Nat) : Alike (scanCode s n i c).1 (scanCode t m j d).1 :=
  have hblocks := blocks_alike h hb n m
  ⟨hblocks.stack, hblocks.pending, h.inComment⟩

/-- A line is scanned alike from states that are alike, wherever it stands and however far it is
indented. -/
theorem step_alike {s t : State} (h : Alike s t) {l k : List Char} (hl : trim l = trim k)
    (n m : Nat) :
    ((step s (l, n)).2 = [] ↔ (step t (k, m)).2 = []) ∧
      Alike (step s (l, n)).1 (step t (k, m)).1 := by
  unfold step
  dsimp only
  rw [← hl, ← h.inComment]
  split
  case isTrue => exact ⟨.rfl, h.stack, h.pending, rfl⟩
  case isFalse =>
      split
      case isTrue => exact ⟨.rfl, h⟩
      case isFalse =>
          split
          case isTrue =>
              refine ⟨?_, h.stack, rfl, rfl⟩
              rcases option_cases h.pending with ⟨hs, ht⟩ | ⟨x, y, hs, ht, -⟩ <;> simp [hs, ht]
          case isFalse =>
              have hb := SameBraces.refl (code (trim l))
              refine ⟨?_, scanCode_alike h hb n m _ _⟩
              rw [scanCode_eq_nil_iff, scanCode_eq_nil_iff, h.context, h.atTopLevel,
                (blocks_alike h hb n m).faults]

/-- From a state on, the lines have no faults. -/
def Clean (s : State) (n : Nat) (ls : List (List Char)) : Prop :=
  (scan s (ls.zipIdx n)).2 = [] ∧ (scan s (ls.zipIdx n)).1.closing = []

theorem clean_check {ls : List (List Char)} : check ls = [] ↔ Clean {} 1 ls :=
  List.append_eq_nil_iff

theorem clean_nil {s : State} {n : Nat} : Clean s n [] ↔ s.pending = none ∧ s.stack = [] := by
  simp [Clean, scan, State.closing]

theorem clean_cons {s : State} {n : Nat} {l : List Char} {ls : List (List Char)} :
    Clean s n (l :: ls) ↔ (step s (l, n)).2 = [] ∧ Clean (step s (l, n)).1 (n + 1) ls := by
  rw [Clean, scan_cons, List.append_eq_nil_iff, Clean, and_assoc]

/-- Whether lines have faults depends on what they are read after up to likeness. -/
theorem Clean.alike {s t : State} (h : Alike s t) {n : Nat} (m : Nat) {ls : List (List Char)}
    (hc : Clean s n ls) : Clean t m ls := by
  induction ls generalizing s t n m with
  | nil =>
      rw [clean_nil] at hc ⊢
      refine ⟨?_, ?_⟩
      · have := h.pending
        rw [hc.1] at this
        exact Option.map_eq_none_iff.1 this.symm
      · have := h.stack
        rw [hc.2] at this
        exact List.map_eq_nil_iff.1 this.symm
  | cons l ls ih =>
      rw [clean_cons] at hc ⊢
      obtain ⟨hfaults, hstates⟩ := step_alike h (l := l) rfl n m
      exact ⟨hfaults.1 hc.1, ih hstates (m + 1) hc.2⟩

theorem clean_alike {s t : State} (h : Alike s t) {n m : Nat} {ls : List (List Char)} :
    Clean s n ls ↔ Clean t m ls :=
  ⟨Clean.alike h m, Clean.alike h.symm n⟩

theorem clean_blank {s : State} {n m : Nat} {l : List Char} (hl : trim l = [])
    {ls : List (List Char)} : Clean s n (l :: ls) ↔ Clean s m ls := by
  rw [clean_cons, step_blank hl]
  exact (and_iff_right rfl).trans (clean_alike (.refl s))

theorem clean_blanks {s : State} {n m : Nat} {gap : List (List Char)}
    (h : ∀ k ∈ gap, trim k = []) {ls : List (List Char)} :
    Clean s n (gap ++ ls) ↔ Clean s m ls := by
  induction gap generalizing n with
  | nil => exact clean_alike (.refl s)
  | cons l gap ih =>
      obtain ⟨hl, h⟩ := List.forall_mem_cons.1 h
      rw [List.cons_append, clean_blank (m := n) hl, ih h]

theorem clean_append_blanks {s : State} {n : Nat} {ls gap : List (List Char)}
    (h : ∀ k ∈ gap, trim k = []) : Clean s n (ls ++ gap) ↔ Clean s n ls := by
  induction ls generalizing s n with
  | nil =>
      have hgap : Clean s n (gap ++ []) ↔ Clean s n [] := clean_blanks h
      rwa [List.append_nil] at hgap
  | cons l ls ih => rw [List.cons_append, clean_cons, clean_cons, ih]

end SchemaLint.Structure
