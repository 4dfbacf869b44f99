import SchemaLint.Layout.Render
import SchemaLint.Proofs.Line.Reader
import SchemaLint.Source

/-! How lines become tokens, as a relation: one rule for each shape a line can have. The relation
is total and agrees with the two passes that split lines and read them, so a property of all
tokens of a source is an induction with these rules as its cases. -/

namespace SchemaLint.Layout
open SchemaLint.Text SchemaLint.Line

def lineToken (depth : Nat) (line : List Char) : Token :=
  ⟨(readLine (trim line)).2, depth, (readLine (trim line)).1⟩

def Token.next (t : Token) : Nat :=
  if t.deepens then t.depth + 1 else t.depth

def Token.braced (t : Token) : Token :=
  { t with text := t.text ++ " \x7b".toList }

/-- The next line that is not blank is an opening brace. -/
def BraceFollows : List (List Char) → Prop
  | [] => False
  | l :: ls => if trim l = [] then BraceFollows ls else trim l = ['{']

/-- A line of code that is neither a closing brace nor split before one. -/
structure IsCode (line : List Char) : Prop where
  nonblank : trim line ≠ []
  noBlock : opensBlock (trim line) = false
  noClose : isClosingLine (trim line) = false
  whole : isComment (trim line) ∨ statementAndCloser? (trim line) = none

/-- From a depth, inside a block comment or outside, some lines are read as some tokens. -/
inductive Reads : Nat → Bool → List (List Char) → List Token → Prop
  | done {d : Nat} {b : Bool} : Reads d b [] []
  | blank {d : Nat} {l : List Char} {ls : List (List Char)} {ts : List Token} :
      trim l = [] → Reads d false ls ts → Reads d false (l :: ls) ts
  | block {d : Nat} {b : Bool} {l : List Char} {ls : List (List Char)} {ts : List Token} :
      (b || opensBlock (trim l)) → Reads d (blockAfter b (trim l)) ls ts →
      Reads d b (l :: ls) (⟨trim l, d, .comment⟩ :: ts)
  | close {d : Nat} {l : List Char} {ls : List (List Char)} {ts : List Token} :
      isClosingLine (trim l) → Reads (d - 1) false ls ts →
      Reads d false (l :: ls) (⟨trim l, d - 1, .close⟩ :: ts)
  | split {d : Nat} {l statement closer : List Char} {ls : List (List Char)} {ts : List Token} :
      isComment (trim l) = false → statementAndCloser? (trim l) = some (statement, closer) →
      Reads d false (statement :: closer :: ls) ts → Reads d false (l :: ls) ts
  | line {d : Nat} {l : List Char} {ls : List (List Char)} {ts : List Token} :
      IsCode l → ((lineToken d l).wantsBrace → ¬ BraceFollows ls) →
      Reads (lineToken d l).next false ls ts → Reads d false (l :: ls) (lineToken d l :: ts)
  | braced {d : Nat} {l brace : List Char} {gap ls : List (List Char)} {ts : List Token} :
      IsCode l → (lineToken d l).wantsBrace → (∀ k ∈ gap, trim k = []) → trim brace = ['{'] →
      Reads (lineToken d l).braced.next false ls ts →
      Reads d false (l :: (gap ++ brace :: ls)) ((lineToken d l).braced :: ts)

theorem closer_cases {c : List Char} (h : isCloser c) : c = ['}'] ∨ c = ['}', ';'] := by
  simpa only [isCloser, Bool.or_eq_true, decide_eq_true_eq] using h

/-- The text before the first brace of a statement and its closer. -/
theorem takeWhile_statement {statement g closer : List Char} (hg : Blank g) (ho : '{' ∉ statement)
    (hk : '}' ∉ statement) (hc : isCloser closer) :
    (statement ++ (g ++ closer)).takeWhile (fun c => !(c == '{' || c == '}')) =
      statement ++ g := by
  have hbefore : ∀ c ∈ statement ++ g, (!(c == '{' || c == '}')) = true := by
    intro c hm
    rcases List.mem_append.1 hm with hm | hm
    · have h₁ : c ≠ '{' := by rintro rfl; exact ho hm
      have h₂ : c ≠ '}' := by rintro rfl; exact hk hm
      simp [h₁, h₂]
    · have hb := hg c hm
      have h₁ : c ≠ '{' := by rintro rfl; revert hb; decide
      have h₂ : c ≠ '}' := by rintro rfl; revert hb; decide
      simp [h₁, h₂]
  have hcloser : closer.takeWhile (fun c => !(c == '{' || c == '}')) = [] := by
    rcases closer_cases hc with rfl | rfl <;> rfl
  rw [← List.append_assoc, List.takeWhile_append_of_pos hbefore, hcloser, List.append_nil]

theorem statementAndCloser?_eq_some_iff {t statement closer : List Char} :
    statementAndCloser? t = some (statement, closer) ↔
      ∃ g, Blank g ∧ t = statement ++ (g ++ closer) ∧ '{' ∉ statement ∧ '}' ∉ statement ∧
        statement.getLast? = some ';' ∧ isCloser closer := by
  have hs := List.takeWhile_append_dropWhile (p := fun c => !(c == '{' || c == '}')) (l := t)
  simp only [statementAndCloser?, Bool.and_eq_true, decide_eq_true_eq]
  constructor
  · intro h
    split at h
    case isTrue hc =>
        simp only [Option.some.injEq, Prod.mk.injEq] at h
        obtain ⟨rfl, rfl⟩ := h
        obtain ⟨g, hg, he⟩ := exists_trimEnd (t.takeWhile fun c => !(c == '{' || c == '}'))
        have hno : ∀ c ∈ trimEnd (t.takeWhile fun c => !(c == '{' || c == '}')),
            (!(c == '{' || c == '}')) = true := fun c hm =>
          List.mem_takeWhile_imp (p := fun c => !(c == '{' || c == '}'))
            ((trimEnd_isPrefix _).subset hm)
        refine ⟨g, hg, ?_, fun hm => by simpa using hno _ hm, fun hm => by simpa using hno _ hm,
          hc.2, hc.1⟩
        rw [← List.append_assoc, ← he, hs]
    case isFalse => cases h
  · rintro ⟨g, hg, rfl, ho, hk, hl, hc⟩
    have htake := takeWhile_statement hg ho hk hc
    have hdrop : (statement ++ (g ++ closer)).dropWhile (fun c => !(c == '{' || c == '}')) =
        closer := by
      rw [htake, ← List.append_assoc] at hs
      rw [← List.append_assoc]
      exact List.append_cancel_left hs
    have hend : trimEnd (statement ++ g) = statement := by
      rw [trimEnd_append hg]
      exact (EndsSolid.of_getLast? hl (by decide)).trimEnd
    rw [htake, hdrop, hend, if_pos ⟨hc, hl⟩]

theorem statementAndCloser?_of_no_brace {t : List Char} (h : '}' ∉ t) :
    statementAndCloser? t = none := by
  cases hs : statementAndCloser? t with
  | none => rfl
  | some r =>
      obtain ⟨g, -, rfl, -, -, -, hc⟩ := statementAndCloser?_eq_some_iff.1 hs
      rcases closer_cases hc with hc | hc <;> rw [hc] at h <;> simp at h

/-- Words and white space in front keep a line from being split, or leave it to be. -/
theorem statementAndCloser?_append_eq_none_iff {p s : List Char}
    (hp : ∀ c ∈ p, isWord c ∨ isBlank c) :
    statementAndCloser? (p ++ s) = none ↔ statementAndCloser? s = none := by
  have hmark : ∀ c, isWord c = false → isBlank c = false → c ∉ p := by
    intro c hw hb hc
    rcases hp c hc with h | h
    · exact Bool.false_ne_true (hw.symm.trans h)
    · exact Bool.false_ne_true (hb.symm.trans h)
  rw [← not_iff_not, ← ne_eq, ← ne_eq, Option.ne_none_iff_exists', Option.ne_none_iff_exists']
  constructor
  · rintro ⟨⟨statement, closer⟩, h⟩
    obtain ⟨g, hg, he, ho, hk, hl, hc⟩ := statementAndCloser?_eq_some_iff.1 h
    have hsemicolon : ';' ∈ statement := List.mem_of_getLast? hl
    rcases List.append_eq_append_iff.1 he with ⟨rest, rfl, rfl⟩ | ⟨rest, rfl, -⟩
    · have hrest : rest ≠ [] := by
        rintro rfl
        rw [List.append_nil] at hsemicolon
        exact hmark ';' (by decide) (by decide) hsemicolon
      rw [List.mem_append, not_or] at ho hk
      rw [List.getLast?_append_of_ne_nil _ hrest] at hl
      exact ⟨(rest, closer),
        statementAndCloser?_eq_some_iff.2 ⟨g, hg, rfl, ho.2, hk.2, hl, hc⟩⟩
    · exact absurd (List.mem_append_left _ hsemicolon) (hmark ';' (by decide) (by decide))
  · rintro ⟨⟨statement, closer⟩, h⟩
    obtain ⟨g, hg, rfl, ho, hk, hl, hc⟩ := statementAndCloser?_eq_some_iff.1 h
    have hopen : '{' ∉ p ++ statement :=
      List.not_mem_append (hmark '{' (by decide) (by decide)) ho
    have hclose : '}' ∉ p ++ statement :=
      List.not_mem_append (hmark '}' (by decide) (by decide)) hk
    have hlast : (p ++ statement).getLast? = some ';' := List.mem_getLast?_append_of_mem_getLast? hl
    exact ⟨(p ++ statement, closer), statementAndCloser?_eq_some_iff.2
      ⟨g, hg, (List.append_assoc ..).symm, hopen, hclose, hlast, hc⟩⟩

theorem isClosingLine_head {t : List Char} (h : isClosingLine t) : ∃ s, t = '}' :: s := by
  unfold isClosingLine at h
  split at h
  · exact ⟨_, rfl⟩
  · cases h

theorem statementAndCloser?_of_closing {t : List Char} (h : isClosingLine t) :
    statementAndCloser? t = none := by
  obtain ⟨r, rfl⟩ := isClosingLine_head h
  cases hs : statementAndCloser? ('}' :: r) with
  | none => rfl
  | some p =>
      obtain ⟨statement, closer⟩ := p
      obtain ⟨g, -, he, -, hk, hl, -⟩ := statementAndCloser?_eq_some_iff.1 hs
      cases statement with
      | nil => cases hl
      | cons c s => exact absurd (List.cons.inj he).1 fun hc => hk (hc ▸ List.mem_cons_self ..)

theorem not_isComment_of_head {t : List Char} (h : ∀ c ∈ t.head?, c ≠ '/' ∧ c ≠ '*') :
    isComment t = false := by
  cases t with
  | nil => decide
  | cons c s =>
      obtain ⟨h₁, h₂⟩ := h c rfl
      simp [isComment, opensBlock, startsWith, after?, h₁.symm, h₂.symm]

theorem opensBlock_isComment {t : List Char} (h : opensBlock t) : isComment t := by
  simp [isComment, h]

theorem opensBlock_of_not_isComment {t : List Char} (h : isComment t = false) :
    opensBlock t = false := by
  by_contra hb
  rw [opensBlock_isComment (Bool.not_eq_false _ ▸ hb)] at h
  cases h

theorem startsWith_append {lead s : List Char} (h : startsWith lead s) (t : List Char) :
    startsWith lead (s ++ t) := by
  rw [startsWith_iff] at h ⊢
  exact h.trans (List.prefix_append s t)

theorem isComment_append {s : List Char} (h : isComment s) (t : List Char) :
    isComment (s ++ t) := by
  simp only [isComment, opensBlock, Bool.or_eq_true] at h ⊢
  rcases h with (h | h) | h
  · exact .inl (.inl (startsWith_append h t))
  · exact .inl (.inr (startsWith_append h t))
  · exact .inr (startsWith_append h t)

/-- A statement split off is a line of code, and what is split off is a closing line. -/
theorem isCode_of_split {l statement closer : List Char} (hc : isComment (trim l) = false)
    (h : statementAndCloser? (trim l) = some (statement, closer)) :
    trim statement = statement ∧ IsCode statement ∧ trim closer = closer ∧
      isClosingLine closer := by
  obtain ⟨g, hg, he, ho, hk, hl, hcl⟩ := statementAndCloser?_eq_some_iff.1 h
  have hne : statement ≠ [] := by rintro rfl; cases hl
  have htrim : trim statement = statement := by
    refine trim_eq_self_iff.2 ⟨?_, .of_getLast? hl (by decide)⟩
    have := startsSolid_trim l
    rwa [he, startsSolid_append hne] at this
  have hnc : isComment statement = false := by
    by_contra hcs
    have := isComment_append (Bool.not_eq_false _ ▸ hcs) (g ++ closer)
    rw [← he, hc] at this
    cases this
  refine ⟨htrim, ⟨?_, ?_, ?_, ?_⟩, ?_, ?_⟩
  · rwa [htrim]
  · rw [htrim]
    exact opensBlock_of_not_isComment hnc
  · rw [htrim]
    by_contra hb
    obtain ⟨s, hs⟩ := isClosingLine_head (Bool.not_eq_false _ ▸ hb)
    exact hk (hs ▸ List.mem_cons_self ..)
  · rw [htrim]
    exact .inr (statementAndCloser?_of_no_brace hk)
  · rcases closer_cases hcl with rfl | rfl <;> decide
  · rcases closer_cases hcl with rfl | rfl <;> decide

theorem braceFollows_iff {ls : List (List Char)} :
    BraceFollows ls ↔ ∃ gap brace rest, ls = gap ++ brace :: rest ∧ (∀ k ∈ gap, trim k = []) ∧
      trim brace = ['{'] := by
  induction ls with
  | nil => simp [BraceFollows]
  | cons l ls ih =>
      by_cases hl : trim l = []
      · rw [BraceFollows, if_pos hl, ih]
        constructor
        · rintro ⟨gap, brace, rest, rfl, hg, hb⟩
          exact ⟨l :: gap, brace, rest, rfl, by simpa [hl] using hg, hb⟩
        · rintro ⟨gap, brace, rest, he, hg, hb⟩
          cases gap with
          | nil =>
              simp only [List.nil_append, List.cons.injEq] at he
              rw [he.1, hb] at hl
              cases hl
          | cons k gap =>
              simp only [List.cons_append, List.cons.injEq] at he
              exact ⟨gap, brace, rest, he.2, fun k hk => hg k (List.mem_cons_of_mem _ hk), hb⟩
      · rw [BraceFollows, if_neg hl]
        constructor
        · intro hb
          exact ⟨[], l, ls, rfl, by simp, hb⟩
        · rintro ⟨gap, brace, rest, he, hg, hb⟩
          cases gap with
          | nil =>
              simp only [List.nil_append, List.cons.injEq] at he
              rw [he.1, hb]
          | cons k gap =>
              simp only [List.cons_append, List.cons.injEq] at he
              rw [he.1] at hl
              exact absurd (hg k (List.mem_cons_self ..)) hl

theorem exists_reads (d : Nat) (b : Bool) (ls : List (List Char)) : ∃ ts, Reads d b ls ts := by
  match ls with
  | [] => exact ⟨[], .done⟩
  | l :: ls =>
      by_cases hblock : b || opensBlock (trim l)
      · obtain ⟨ts, h⟩ := exists_reads d (blockAfter b (trim l)) ls
        exact ⟨_, .block hblock h⟩
      simp only [Bool.or_eq_true, not_or, Bool.not_eq_true] at hblock
      obtain ⟨rfl, hblock⟩ := hblock
      by_cases hblank : trim l = []
      · obtain ⟨ts, h⟩ := exists_reads d false ls
        exact ⟨ts, .blank hblank h⟩
      by_cases hclose : isClosingLine (trim l)
      · obtain ⟨ts, h⟩ := exists_reads (d - 1) false ls
        exact ⟨_, .close hclose h⟩
      by_cases hwhole : isComment (trim l) ∨ statementAndCloser? (trim l) = none
      · have hcode : IsCode l := ⟨hblank, hblock, eq_false_of_ne_true hclose, hwhole⟩
        by_cases hbrace : (lineToken d l).wantsBrace ∧ BraceFollows ls
        · obtain ⟨gap, brace, rest, hls, hg, hb⟩ := braceFollows_iff.1 hbrace.2
          have hrest : rest.length ≤ ls.length := by simp [hls]; omega
          obtain ⟨ts, h⟩ := exists_reads (lineToken d l).braced.next false rest
          rw [hls]
          exact ⟨_, .braced hcode hbrace.1 hg hb h⟩
        · obtain ⟨ts, h⟩ := exists_reads (lineToken d l).next false ls
          exact ⟨_, .line hcode (fun hw hf => hbrace ⟨hw, hf⟩) h⟩
      · rw [not_or, Bool.not_eq_true] at hwhole
        obtain ⟨⟨statement, closer⟩, hs⟩ := Option.ne_none_iff_exists'.1 hwhole.2
        obtain ⟨hts, hcode, htc, hcl⟩ := isCode_of_split hwhole.1 hs
        obtain ⟨ts, h⟩ := exists_reads ((lineToken d statement).next - 1) false ls
        refine ⟨_, .split hwhole.1 hs (.line hcode ?_ (.close (htc.symm ▸ hcl) h))⟩
        intro _ hf
        obtain ⟨r, hr⟩ := isClosingLine_head hcl
        rw [BraceFollows, htc, hr, if_neg (by simp)] at hf
        cases hf
termination_by ls.length
decreasing_by all_goals (simp only [List.length_cons]; omega)

/-- The tokens that the passes make of some lines from a state on. -/
def tokensFrom (s : State) (lines : List (List Char)) : List Token :=
  (Pass.run step s (Pass.run splitCloser s.inComment lines).2).2 ++
    (Pass.run step s (Pass.run splitCloser s.inComment lines).2).1.held.toList

theorem tokens_splitClosers (lines : List (List Char)) :
    tokens (splitClosers lines) = tokensFrom {} lines := rfl

theorem read_inComment (s : State) (trimmed : List Char) :
    (s.read trimmed).1.inComment = blockAfter s.inComment trimmed := by
  unfold State.read
  split
  case isTrue => rfl
  case isFalse h =>
      rw [Bool.or_eq_true, not_or, Bool.not_eq_true, Bool.not_eq_true] at h
      rw [blockAfter, h.1, h.2, Bool.or_self, Bool.false_and]
      dsimp only
      split
      · rfl
      · split
        · rfl
        · exact h.1

theorem step_inComment (s : State) (l : List Char) :
    (step s l).1.inComment = blockAfter s.inComment (trim l) := by
  unfold step
  dsimp only
  split
  · split
    case isTrue h =>
        rw [Bool.and_eq_true, decide_eq_true_eq] at h
        rw [h.1, blockAfter_nil]
    case isFalse => exact read_inComment s (trim l)
  · split
    case isTrue h => rw [h, blockAfter_nil]
    case isFalse =>
        split
        case isTrue h =>
            rw [h]
            change s.inComment = _
            cases s.inComment <;> rfl
        case isFalse => exact read_inComment { s with held := none } (trim l)

theorem tokensFrom_cons {s : State} {l : List Char} {ls : List (List Char)}
    (hl : (splitCloser s.inComment l).2 = [l]) :
    tokensFrom s (l :: ls) = (step s l).2 ++ tokensFrom (step s l).1 ls := by
  have hc : (splitCloser s.inComment l).1 = (step s l).1.inComment := (step_inComment s l).symm
  simp only [tokensFrom, Pass.run_cons, hl, hc, List.append_assoc, List.singleton_append]

theorem splitCloser_of_whole {b : Bool} {l : List Char}
    (h : b ∨ isComment (trim l) ∨ statementAndCloser? (trim l) = none) :
    (splitCloser b l).2 = [l] := by
  unfold splitCloser
  rcases h with h | h | h
  · simp [h]
  · simp [h]
  · simp [h]

theorem splitCloser_of_split {l statement closer : List Char} (hc : isComment (trim l) = false)
    (h : statementAndCloser? (trim l) = some (statement, closer)) :
    splitCloser false l = (false, [statement, closer]) := by
  refine Prod.ext (blockAfter_of_not_isComment hc) ?_
  simp [splitCloser, hc, h]

theorem splitCloser_blank {b : Bool} {l : List Char} (h : trim l = []) :
    (splitCloser b l).2 = [l] :=
  splitCloser_of_whole (.inr (.inr (by rw [h]; rfl)))

theorem tokensFrom_split {d : Nat} {held : Option Token} {l statement closer : List Char}
    {ls : List (List Char)} (hc : isComment (trim l) = false)
    (h : statementAndCloser? (trim l) = some (statement, closer)) :
    tokensFrom ⟨d, false, held⟩ (l :: ls) =
      tokensFrom ⟨d, false, held⟩ (statement :: closer :: ls) := by
  obtain ⟨hts, hcode, -, -⟩ := isCode_of_split hc h
  have hstatement : splitCloser false statement = (false, [statement]) := by
    refine Prod.ext ?_ (splitCloser_of_whole (.inr hcode.whole))
    simp [splitCloser, blockAfter, hcode.noBlock]
  have hcloser : splitCloser false closer = (false, [closer]) := by
    obtain ⟨g, -, -, -, -, -, hcc⟩ := statementAndCloser?_eq_some_iff.1 h
    rcases closer_cases hcc with rfl | rfl <;> decide
  simp only [tokensFrom, Pass.run_cons, splitCloser_of_split hc h, hstatement, hcloser,
    List.cons_append, List.nil_append]

theorem step_blank {d : Nat} {held : Option Token} {l : List Char} (h : trim l = []) :
    step ⟨d, false, held⟩ l = (⟨d, false, held⟩, []) := by
  cases held <;> simp [step, h]

theorem step_block {d : Nat} {b : Bool} {l : List Char} (h : b || opensBlock (trim l)) :
    step ⟨d, b, none⟩ l = (⟨d, blockAfter b (trim l), none⟩, [⟨trim l, d, .comment⟩]) := by
  have hn : (decide (trim l = []) && !b) = false := by
    rcases Bool.or_eq_true_iff.1 h with h | h
    · simp [h]
    · have : trim l ≠ [] := by rintro hl; rw [hl] at h; cases h
      simp [this]
  simp [step, hn, State.read, h]

theorem step_close {d : Nat} {l : List Char} (h : isClosingLine (trim l)) :
    step ⟨d, false, none⟩ l = (⟨d - 1, false, none⟩, [⟨trim l, d - 1, .close⟩]) := by
  obtain ⟨r, hr⟩ := isClosingLine_head h
  have hb : opensBlock (trim l) = false := by rw [hr]; rfl
  have hn : trim l ≠ [] := by simp [hr]
  simp [step, State.read, h, hb, hn]

/-- A line that is neither a comment block nor a closing brace is read, split or not. -/
theorem step_readLine {d : Nat} {l : List Char} (hn : trim l ≠ [])
    (hb : opensBlock (trim l) = false) (hc : isClosingLine (trim l) = false) :
    step ⟨d, false, none⟩ l =
      if (lineToken d l).wantsBrace then (⟨d, false, some (lineToken d l)⟩, [])
      else (⟨(lineToken d l).next, false, none⟩, [lineToken d l]) := by
  simp only [step, State.read, hn, hb, hc, decide_false, Bool.false_and, Bool.or_self,
    Bool.false_eq_true, if_false]
  rfl

theorem step_code {d : Nat} {l : List Char} (h : IsCode l) :
    step ⟨d, false, none⟩ l =
      if (lineToken d l).wantsBrace then (⟨d, false, some (lineToken d l)⟩, [])
      else (⟨(lineToken d l).next, false, none⟩, [lineToken d l]) :=
  step_readLine h.nonblank h.noBlock h.noClose

theorem step_held {d : Nat} {t : Token} {l : List Char} (hl : trim l ≠ []) :
    step ⟨d, false, some t⟩ l =
      if trim l = ['{'] then (⟨if t.braced.deepens then d + 1 else d, false, none⟩, [t.braced])
      else ((step ⟨d, false, none⟩ l).1, t :: (step ⟨d, false, none⟩ l).2) := by
  simp only [step, hl, decide_false, Bool.false_and, Bool.false_eq_true, if_false]
  rfl

theorem tokensFrom_held_cons {d : Nat} {t : Token} {l : List Char} {ls : List (List Char)}
    (hl : trim l ≠ []) (hb : trim l ≠ ['{']) :
    tokensFrom ⟨d, false, some t⟩ (l :: ls) = t :: tokensFrom ⟨d, false, none⟩ (l :: ls) := by
  have unsplit : ∀ {k ks}, trim k ≠ [] → trim k ≠ ['{'] → (splitCloser false k).2 = [k] →
      tokensFrom ⟨d, false, some t⟩ (k :: ks) = t :: tokensFrom ⟨d, false, none⟩ (k :: ks) := by
    intro k ks hk hkb hks
    rw [tokensFrom_cons hks, tokensFrom_cons hks, step_held hk, if_neg hkb]
    rfl
  by_cases hw : isComment (trim l) ∨ statementAndCloser? (trim l) = none
  · exact unsplit hl hb (splitCloser_of_whole (.inr hw))
  · rw [not_or, Bool.not_eq_true] at hw
    obtain ⟨⟨statement, closer⟩, hs⟩ := Option.ne_none_iff_exists'.1 hw.2
    obtain ⟨hts, hcode, -, -⟩ := isCode_of_split hw.1 hs
    obtain ⟨-, -, -, ho, -, -, -⟩ := statementAndCloser?_eq_some_iff.1 hs
    rw [tokensFrom_split hw.1 hs, tokensFrom_split hw.1 hs]
    refine unsplit hcode.nonblank ?_ (splitCloser_of_whole (.inr hcode.whole))
    rw [hts]
    rintro rfl
    exact ho (List.mem_singleton_self _)

theorem tokensFrom_held {d : Nat} {t : Token} {ls : List (List Char)} (h : ¬ BraceFollows ls) :
    tokensFrom ⟨d, false, some t⟩ ls = t :: tokensFrom ⟨d, false, none⟩ ls := by
  induction ls with
  | nil => rfl
  | cons l ls ih =>
      rw [BraceFollows] at h
      by_cases hl : trim l = []
      · rw [if_pos hl] at h
        have hw := splitCloser_blank (b := false) hl
        rw [tokensFrom_cons hw, tokensFrom_cons hw, step_blank hl, step_blank hl]
        exact ih h
      · rw [if_neg hl] at h
        exact tokensFrom_held_cons hl h

theorem tokensFrom_gap {d : Nat} {t : Token} {gap ls : List (List Char)}
    (h : ∀ k ∈ gap, trim k = []) :
    tokensFrom ⟨d, false, some t⟩ (gap ++ ls) = tokensFrom ⟨d, false, some t⟩ ls := by
  induction gap with
  | nil => rfl
  | cons l gap ih =>
      have hl : trim l = [] := h l (List.mem_cons_self ..)
      rw [List.cons_append, tokensFrom_cons (splitCloser_blank hl), step_blank hl]
      exact ih fun k hk => h k (List.mem_cons_of_mem _ hk)

theorem getLast?_code_mem {s : List Char} {c : Char} (h : (code s).getLast? = some c) : c ∈ s :=
  (beforeComment_isPrefix s).subset (mem_of_mem_trim (List.mem_of_getLast? h))

theorem Token.wantsBrace_iff {t : Token} :
    t.wantsBrace ↔ t.category = .block ∧ '{' ∉ t.text ∧ ¬ holds "//".toList t.text := by
  simp [wantsBrace, and_assoc]

theorem Token.next_of_wantsBrace {t : Token} (h : t.wantsBrace) : t.next = t.depth := by
  have : t.deepens = false := by
    rw [deepens, Bool.and_eq_false_iff]
    refine .inr (decide_eq_false fun hl => ?_)
    exact (wantsBrace_iff.1 h).2.1 (getLast?_code_mem hl)
  rw [next, this]
  rfl

/-- What is read from a depth on is what the passes make of the lines. -/
theorem Reads.tokensFrom {d : Nat} {b : Bool} {ls : List (List Char)} {ts : List Token}
    (h : Reads d b ls ts) : tokensFrom ⟨d, b, none⟩ ls = ts := by
  induction h with
  | done => rfl
  | @blank d l ls ts hl h ih =>
      rw [tokensFrom_cons (splitCloser_blank hl), step_blank hl, ih]
      rfl
  | @block d b l ls ts hb h ih =>
      have hw : (splitCloser b l).2 = [l] := by
        rcases Bool.or_eq_true_iff.1 hb with hb | hb
        · exact splitCloser_of_whole (.inl hb)
        · exact splitCloser_of_whole (.inr (.inl (opensBlock_isComment hb)))
      rw [tokensFrom_cons hw, step_block hb, ih]
      rfl
  | @close d l ls ts hc h ih =>
      have hw := splitCloser_of_whole (b := false) (.inr (.inr (statementAndCloser?_of_closing hc)))
      rw [tokensFrom_cons hw, step_close hc, ih]
      rfl
  | split hc hs h ih => rw [tokensFrom_split hc hs, ih]
  | @line d l ls ts hcode hbrace h ih =>
      have hw := splitCloser_of_whole (b := false) (.inr hcode.whole)
      rw [tokensFrom_cons hw, step_code hcode]
      by_cases hwants : (lineToken d l).wantsBrace
      · rw [if_pos hwants, tokensFrom_held (hbrace hwants), ← ih, Token.next_of_wantsBrace hwants]
        rfl
      · rw [if_neg hwants, ih]
        rfl
  | @braced d l brace gap ls ts hcode hwants hgap hbrace h ih =>
      have hw := splitCloser_of_whole (b := false) (.inr hcode.whole)
      have hwb : (splitCloser false brace).2 = [brace] :=
        splitCloser_of_whole (.inr (.inr (by rw [hbrace]; rfl)))
      rw [tokensFrom_cons hw, step_code hcode, if_pos hwants, tokensFrom_gap hgap,
        tokensFrom_cons hwb, step_held (by simp [hbrace]), if_pos hbrace, ← ih]
      rfl

theorem Reads.unique {d : Nat} {b : Bool} {ls : List (List Char)} {ts us : List Token}
    (h : Reads d b ls ts) (k : Reads d b ls us) : ts = us :=
  h.tokensFrom.symm.trans k.tokensFrom

theorem reads_iff {ls : List (List Char)} {ts : List Token} :
    Reads 0 false ls ts ↔ tokens (splitClosers ls) = ts := by
  rw [tokens_splitClosers]
  constructor
  · exact Reads.tokensFrom
  · intro h
    obtain ⟨us, hu⟩ := exists_reads 0 false ls
    rwa [← h, show Layout.tokensFrom {} ls = us from hu.tokensFrom]

end SchemaLint.Layout
