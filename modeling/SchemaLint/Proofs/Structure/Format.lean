import SchemaLint.Proofs.Structure.Balance
import SchemaLint.Proofs.Structure.Kept

/-! Structural faults of formatted sources. The lines that formatting makes of a source without
faults are scanned beside the lines they come from, in states that are alike as long as each line is
read as it was. -/

namespace SchemaLint.Structure
open SchemaLint.Text SchemaLint.Line SchemaLint.Layout

/-- The line is an extension that closes a block and opens none. -/
def ClosesExtension (t : List Char) : Prop :=
  firstWord (code t) = "extend".toList ∧ '}' ∈ code t ∧ '{' ∉ code t

instance (t : List Char) : Decidable (ClosesExtension t) :=
  inferInstanceAs (Decidable (_ ∧ _ ∧ _))

theorem clean_linesAfter_cons {s : State} {n m : Nat} {prev : Option Token} {t : Token}
    {ts : List Token} :
    Clean s n (linesAfter prev (t :: ts)) ↔ Clean s m (t.line :: linesAfter (some t) ts) := by
  rw [linesAfter_cons]
  split
  · exact clean_blank rfl
  · exact clean_alike (.refl s)

section
variable {s s' : State} {n m : Nat} {l k : List Char} {ls ks : List (List Char)}

theorem clean_cons_same (ha : Alike s s') (hl : trim k = trim l) (hclean : Clean s n (l :: ls))
    (hkept : s.inComment = false → isComment (trim l) = false → Kept s.context (trim l))
    (ih : Clean (step s' (k, m)).1 (m + 1) ks ↔ KeptFrom (step s (l, n)).1 (n + 1) ls) :
    Clean s' m (k :: ks) ↔ KeptFrom s n (l :: ls) := by
  have hfaults := (step_alike ha hl.symm n m).1.1 (clean_cons.1 hclean).1
  rw [clean_cons, KeptFrom, ih]
  exact and_congr_left' (iff_of_true hfaults hkept)

theorem clean_cons_spaced (ha : Alike s s') (hs : s.inComment = false) (hcode : IsCode l)
    (hc : isComment (trim l) = false) (hnl : '\n' ∉ l) (hk : trim k = spaced (trim l))
    (hclean : Clean s n (l :: ls))
    (ih : Alike (step s (l, n)).1 (step s' (k, m)).1 →
      (Clean (step s' (k, m)).1 (m + 1) ks ↔ KeptFrom (step s (l, n)).1 (n + 1) ls)) :
    Clean s' m (k :: ks) ↔ KeptFrom s n (l :: ls) := by
  have hnl' : '\n' ∉ trim l := fun hm => hnl (mem_of_mem_trim hm)
  have hkn : trim k ≠ [] := hk ▸ spaced_ne_nil (trim_trim l) hcode.nonblank
  have hkc : isComment (trim k) = false := by rw [hk, isComment_spaced (trim_trim l), hc]
  have hfirst := step_of_code hs hcode.nonblank hc n
  have hsecond := step_of_code (ha.inComment ▸ hs) hkn hkc m
  rw [hk] at hsecond
  rw [clean_cons, hfirst] at hclean
  obtain ⟨hfaults, halike⟩ := scanCode_spaced ha (trim_trim l) hnl' hclean.1 m
    (k.takeWhile isBlank).length
  rw [clean_cons, KeptFrom, hsecond, hfaults, ← kept_isCode hcode]
  rw [hfirst, hsecond] at ih
  rw [hfirst]
  constructor
  · rintro ⟨hkept, hrest⟩
    exact ⟨fun _ _ => hkept, (ih (halike ((kept_isCode hcode).1 hkept))).1 hrest⟩
  · rintro ⟨hkept, hrest⟩
    have hkept := hkept hs hc
    exact ⟨hkept, (ih (halike ((kept_isCode hcode).1 hkept))).2 hrest⟩

theorem clean_split {statement closer : List Char} (hs : s.inComment = false)
    (hc : isComment (trim l) = false) (hr : remark (trim l) = [])
    (h : statementAndCloser? (trim l) = some (statement, closer)) (hclean : Clean s n (l :: ls)) :
    Clean s n (statement :: closer :: ls) ∧
      (KeptFrom s n (l :: ls) ↔ KeptFrom s n (statement :: closer :: ls)) := by
  obtain ⟨-, hcode, -, hcl⟩ := isCode_of_split hc h
  obtain ⟨-, -, -, -, -, -, hcloser⟩ := statementAndCloser?_eq_some_iff.1 h
  obtain ⟨hts, hcs, htc, hcc⟩ := trim_of_split (trim_trim l) hc h
  obtain ⟨ht, hst⟩ := code_of_split (trim_trim l) hc h hr
  have hcn : isComment closer = false := by rcases closer_cases hcloser with rfl | rfl <;> decide
  have hn : trim l ≠ [] := by
    intro hn
    rw [hn] at h
    cases h
  have hclosern : closer ≠ [] := by rcases closer_cases hcloser with rfl | rfl <;> decide
  have hwhole := step_of_code hs hn hc n
  have hfirst := step_of_code (l := statement) hs hcode.nonblank (by rwa [hts]) n
  have hsecond := step_of_code (l := closer) hs (by rwa [htc]) (by rwa [htc]) (n + 1)
  rw [ht] at hwhole
  rw [hts, hst] at hfirst
  rw [htc, hcc] at hsecond
  rw [clean_cons, hwhole] at hclean
  have hparts := scanCode_split h hclean.1 n (statement.takeWhile isBlank).length (n + 1)
    (closer.takeWhile isBlank).length
  rw [hparts.1] at hfirst
  rw [hparts.2] at hsecond
  have hkept : Kept s.context (trim l) ↔ Kept s.context statement := by
    have houtput := outputs_isCode hcode
    rw [Kept, outputs_split hc h, houtput, htc, outputs_close hcl, Kept, ht, hst,
      List.forall_mem_append, List.forall_mem_singleton, List.forall_mem_singleton, hcc]
    rw [hts] at houtput ⊢
    rw [houtput, List.forall_mem_singleton, readAlike_of_split h]
    exact and_iff_left (readAlike_closer _ _ hcloser)
  refine ⟨?_, ?_⟩
  · rw [clean_cons, hfirst, clean_cons, hsecond]
    exact ⟨rfl, rfl, (clean_alike (.refl _)).1 hclean.2⟩
  · rw [KeptFrom, KeptFrom, KeptFrom, hwhole, hfirst, hsecond, hkept, hts, htc]
    simp only [hs, hc, hcs, hcn, true_implies, kept_close _ hcl, true_and]
    exact and_congr_right' (keptFrom_alike (.refl _))

theorem code_of_block {keyword : String} (hk : keyword ∈ blockKeywords) {b : Char} {u : List Char}
    (hb : isBlank b) (hnl : '\n' ∉ keyword.toList ++ b :: u) :
    ∃ v, (∀ a ∈ v.head?, isBlank a) ∧ code (keyword.toList ++ b :: u) = keyword.toList ++ v := by
  obtain ⟨hn, hword⟩ := word_of_lineKeyword keyword (mem_lineKeywords_of_block hk)
  rcases code_keyword hn hword hb hnl with he | ⟨v, he⟩
  · exact ⟨[], by simp, by rw [he, List.append_nil]⟩
  · exact ⟨b :: v, by simpa using hb, he⟩

theorem firstWord_of_block {keyword : String} (hk : keyword ∈ blockKeywords) {v : List Char}
    (hv : ∀ a ∈ v.head?, isBlank a) : firstWord (keyword.toList ++ v) = keyword.toList :=
  firstWord_append (word_of_lineKeyword keyword (mem_lineKeywords_of_block hk)).2 fun a ha =>
    isWord_of_isBlank (hv a ha)

theorem isComment_of_block {keyword : String} (hk : keyword ∈ blockKeywords) {v : List Char}
    (hv : ∀ a ∈ v.head?, isBlank a) : isComment (keyword.toList ++ v) = false := by
  refine isComment_of_firstWord ?_
  rw [firstWord_of_block hk hv]
  exact (word_of_lineKeyword keyword (mem_lineKeywords_of_block hk)).1

/-- An opener that waits for its brace, and its text in normal spacing. -/
structure Waits (t text : List Char) (keyword : String) (rest : List Char) : Prop where
  led : keyword ∈ blockKeywords
  eq : text = keyword.toList ++ ' ' :: rest
  normal : spaced t = text
  trimmed : trim text = text
  noRemark : remark text = []
  unbraced : '{' ∉ text
  noComment : isComment t = false
  read : ∃ v, (∀ a ∈ v.head?, isBlank a) ∧ code t = keyword.toList ++ v

theorem exists_waits {d : Nat} (hw : (lineToken d l).wantsBrace) (hnl : '\n' ∉ trim l) :
    ∃ keyword rest, Waits (trim l) (lineToken d l).text keyword rest := by
  obtain ⟨keyword, hk, g, rest, hn, hg, hrest, -, hends, he, htext⟩ := wantsBrace_text hw
  obtain ⟨b, g, rfl⟩ := List.exists_cons_of_ne_nil hn
  have hb := (blank_cons.1 hg).1
  have htrim : trim (lineToken d l).text = (lineToken d l).text := by
    rw [htext]
    exact trim_spaceKeyword (startsWord_of_lineKeyword (mem_lineKeywords_of_block hk)) hrest hends
  have ht : trim l = keyword.toList ++ b :: (g ++ rest) := he
  refine ⟨keyword, rest, hk, htext, htrim, htrim, remark_of_wantsBrace hw,
    (Token.wantsBrace_iff.1 hw).2.1, ?_, ?_⟩
  · rw [ht]
    exact isComment_of_block hk (by simpa using hb)
  · rw [ht]
    exact code_of_block hk hb (ht ▸ hnl)

theorem trim_line_braced {d : Nat} (hw : (lineToken d l).wantsBrace) :
    trim (lineToken d l).braced.line = (lineToken d l).text ++ " \x7b".toList := by
  obtain ⟨c, hc, hword⟩ := wantsBrace_head hw
  rw [Token.trim_line]
  exact trim_of_head (List.mem_head?_append_of_mem_head? hc) hword
    ((endsSolid_append (by simp)).2 (by decide))

namespace Waits
variable {t text rest : List Char} {keyword : String}

theorem code_spaced (h : Waits t text keyword rest) : code (spaced t) = text := by
  rw [h.normal, code_of_remark h.trimmed h.noRemark]

theorem space (w : List Char) : ∀ a ∈ (' ' :: w).head?, isBlank a := fun a ha => by
  cases ha
  decide

theorem readAlike (h : Waits t text keyword rest) (context : Option BlockKind) :
    ReadAlike context (code t) text := by
  obtain ⟨v, hv, hcode⟩ := h.read
  have hword : firstWord text = keyword.toList :=
    h.eq ▸ firstWord_of_block h.led (space rest)
  exact hcode ▸ readAlike_of_block h.led hv hword

/-- Only an extension that closes a block is led by its keyword and holds a closing brace. -/
theorem no_close (h : Waits t text keyword rest) (hnl : '\n' ∉ t) (hclose : ¬ ClosesExtension t)
    (hextend : keyword = "extend") : '}' ∉ text := by
  have hcompact : compact (code t) = compact text := by
    rw [← h.code_spaced, compact_code_spaced hnl]
  obtain ⟨v, hv, hcode⟩ := h.read
  refine fun hm => hclose ⟨?_, ?_, fun ho => h.unbraced ?_⟩
  · rw [hcode, ← hextend, firstWord_of_block h.led hv]
  · rwa [← mem_compact (by decide), hcompact, mem_compact (by decide)]
  · rwa [← mem_compact (by decide), ← hcompact, mem_compact (by decide)]

theorem step_braced (h : Waits t text keyword rest) (hs : s.inComment = false)
    (hk : trim k = text ++ " \x7b".toList) (m : Nat) :
    step s (k, m) = scanCode s m (k.takeWhile isBlank).length (text ++ " \x7b".toList) := by
  have hcomment : isComment (trim k) = false := by
    rw [hk, h.eq, List.append_assoc]
    exact isComment_of_block h.led (space _)
  have hstep := step_of_code hs (by rw [hk]; simp) hcomment m
  rwa [hk, code_of_remark (hk ▸ trim_trim k) (remark_braced h.noRemark)] at hstep

end Waits

/-- An opener and the brace that follows it, and the one line that they become. -/
theorem clean_braced {d : Nat} {brace : List Char} {gap : List (List Char)} (ha : Alike s s')
    (hs : s.inComment = false) (hcode : IsCode l) (hw : (lineToken d l).wantsBrace)
    (hgap : ∀ k ∈ gap, trim k = []) (hbrace : trim brace = ['{']) (hnl : '\n' ∉ l)
    (hclose : ¬ ClosesExtension (trim l)) (hclean : Clean s n (l :: (gap ++ brace :: ls))) :
    (step s' ((lineToken d l).braced.line, m)).2 = [] ∧
      ∃ s₂, Alike s₂ (step s' ((lineToken d l).braced.line, m)).1 ∧ s₂.inComment = false ∧
        Clean s₂ (n + 2) ls ∧
        (KeptFrom s n (l :: (gap ++ brace :: ls)) ↔ KeptFrom s₂ (n + 2) ls) := by
  have hnl : '\n' ∉ trim l := fun hm => hnl (mem_of_mem_trim hm)
  obtain ⟨keyword, rest, hwaits⟩ := exists_waits hw hnl
  have hread := hwaits.readAlike s.context
  have hkept : Kept s.context (trim l) := by
    rw [kept_isCode hcode, hwaits.code_spaced]
    exact hread
  have hfirst := step_of_code hs hcode.nonblank hwaits.noComment n
  rw [clean_cons, hfirst, clean_blanks hgap (m := n + 1), clean_cons] at hclean
  obtain ⟨hfaults, -, hrest⟩ := hclean
  -- the opener in normal spacing is scanned as the line is, and with its brace as both lines are
  obtain ⟨hspacing, halike⟩ := scanCode_spaced ha (trim_trim l) hnl hfaults m 0
  rw [hwaits.code_spaced] at hspacing halike
  have hbelow := step_of_code (l := brace)
    (s := (scanCode s n (l.takeWhile isBlank).length (code (trim l))).1) hs (by simp [hbrace])
    (by rw [hbrace]; decide) (n + 1)
  rw [hbrace, show code ['{'] = ['{'] by decide] at hbelow
  have hjoined := hwaits.step_braced (ha.inComment ▸ hs) (trim_line_braced hw) m
  obtain ⟨hclean, hbraced⟩ := scanCode_braced hwaits.led hwaits.eq hwaits.unbraced
    (hwaits.no_close hnl hclose) (hspacing.2 hread) (n + 1) (brace.takeWhile isBlank).length m
    ((lineToken d l).braced.line.takeWhile isBlank).length
  refine ⟨by rw [hjoined, hclean], _, ?_, ?_, hrest, ?_⟩
  · rw [hbelow, hjoined]
    exact (scanCode_alike (halike hread) (.refl _) _ _ _ _).trans hbraced
  · rw [hbelow]
    exact hs
  · rw [KeptFrom, hfirst, keptFrom_blanks hgap (m := n + 1), KeptFrom, hbrace]
    exact (and_iff_right fun _ _ => hkept).trans (and_iff_right fun _ _ => kept_brace _)

end

theorem ordinary_of_no_close {t : List Char} (h : '}' ∉ t) :
    ¬ SplitsRemark t ∧ ¬ ClosesExtension t := by
  refine ⟨fun hs => ?_, fun he => h ?_⟩
  · have := hs.2.2
    rw [statementAndCloser?_of_no_brace h] at this
    cases this
  · exact (beforeComment_isPrefix t).subset (mem_of_mem_trim he.2.1)

theorem ordinary_closer {t : List Char} (h : isCloser t) :
    ¬ SplitsRemark t ∧ ¬ ClosesExtension t := by
  rcases closer_cases h with rfl | rfl <;>
    exact ⟨fun h => absurd h.2.2 (by decide), fun h => absurd h.1 (by decide)⟩

/-- The lines hold no newlines, and none of code is split inside its comment or is an extension that
closes a block. -/
structure Ordinary (b : Bool) (ls : List (List Char)) : Prop where
  noNewline : ∀ l ∈ ls, '\n' ∉ l
  code : ∀ t ∈ collect (fun _ => []) (fun t => [t]) b ls, ¬ SplitsRemark t ∧ ¬ ClosesExtension t

namespace Ordinary
variable {b : Bool} {l : List Char} {ls : List (List Char)}

theorem of_cons {p : Bool} (h : Ordinary b (l :: ls)) (hp : blockAfter b (trim l) = p) :
    Ordinary p ls :=
  ⟨(List.forall_mem_cons.1 h.noNewline).2, hp ▸ (forall_collect_cons.1 h.code).2⟩

theorem head (h : Ordinary false (l :: ls)) (hb : opensBlock (trim l) = false) :
    ¬ SplitsRemark (trim l) ∧ ¬ ClosesExtension (trim l) :=
  (forall_collect_cons.1 h.code).1 hb

theorem of_gap {gap : List (List Char)} (hgap : ∀ k ∈ gap, trim k = [])
    (h : Ordinary false (gap ++ ls)) : Ordinary false ls :=
  ⟨fun k hk => h.noNewline k (List.mem_append_right _ hk), forall_collect_gap hgap h.code⟩

theorem split {statement closer : List Char} (h : Ordinary false (l :: ls))
    (hc : isComment (trim l) = false)
    (hsplit : statementAndCloser? (trim l) = some (statement, closer)) :
    Ordinary false (statement :: closer :: ls) := by
  obtain ⟨hts, hcode, htc, -⟩ := isCode_of_split hc hsplit
  obtain ⟨g, hg, he, -, hclose, -, hcloser⟩ := statementAndCloser?_eq_some_iff.1 hsplit
  have hcb : opensBlock closer = false := by rcases closer_cases hcloser with rfl | rfl <;> rfl
  have hsb : opensBlock statement = false := hts ▸ hcode.noBlock
  have hls := h.of_cons (blockAfter_of_not_isComment hc)
  have hl : '\n' ∉ trim l := fun hm => h.noNewline l (List.mem_cons_self ..) (mem_of_mem_trim hm)
  simp only [he, List.mem_append, not_or] at hl
  refine ⟨List.forall_mem_cons.2 ⟨hl.1, List.forall_mem_cons.2 ⟨hl.2.2, hls.noNewline⟩⟩,
    forall_collect_cons.2 ⟨fun _ => hts.symm ▸ ordinary_of_no_close hclose, ?_⟩⟩
  rw [hts, blockAfter_of_no_block hsb]
  refine forall_collect_cons.2 ⟨fun _ => htc.symm ▸ ordinary_closer hcloser, ?_⟩
  rw [htc, blockAfter_of_no_block hcb]
  exact hls.code

end Ordinary

/-- From states that are alike, lines without faults are kept exactly if the lines of the tokens
have none. -/
structure Mirrors (b : Bool) (ls : List (List Char)) (ts : List Token) : Prop where
  clean_iff : ∀ {s s' : State} {n m : Nat} {prev : Option Token}, s.inComment = b → Alike s s' →
    Ordinary b ls → Clean s n ls → (Clean s' m (linesAfter prev ts) ↔ KeptFrom s n ls)

namespace Mirrors
variable {d : Nat} {b : Bool} {l : List Char} {ls : List (List Char)} {ts : List Token}

theorem done (b : Bool) : Mirrors b [] [] :=
  ⟨fun _ ha _ hclean => iff_of_true (hclean.alike ha _) trivial⟩

theorem blank (hl : trim l = []) (ih : Mirrors false ls ts) : Mirrors false (l :: ls) ts := by
  refine ⟨fun {s s' n m prev} hs ha ho hclean => ?_⟩
  rw [keptFrom_blank (m := n) hl]
  exact ih.clean_iff hs ha (ho.of_cons (by rw [hl]; rfl)) ((clean_blank hl).1 hclean)

theorem same {t : Token} (ht : trim t.line = trim l)
    (hkept : ∀ s : State, s.inComment = b → s.inComment = false → isComment (trim l) = false →
      Kept s.context (trim l))
    (ih : Mirrors (blockAfter b (trim l)) ls ts) : Mirrors b (l :: ls) (t :: ts) := by
  refine ⟨fun {s s' n m prev} hs ha ho hclean => ?_⟩
  rw [clean_linesAfter_cons (m := m)]
  refine clean_cons_same ha ht hclean (hkept s hs) (ih.clean_iff ?_ (step_alike ha ht.symm n m).2
    (ho.of_cons rfl) (clean_cons.1 hclean).2)
  rw [inComment_step, hs]

theorem block (hb : b || opensBlock (trim l)) (ih : Mirrors (blockAfter b (trim l)) ls ts) :
    Mirrors b (l :: ls) (⟨trim l, d, .comment⟩ :: ts) := by
  refine same (Token.trim_line_trim l d .comment) (fun s hs hs' hc => ?_) ih
  rw [hs'] at hs
  subst hs
  rw [opensBlock_of_not_isComment hc] at hb
  cases hb

theorem close (hc : isClosingLine (trim l)) (ih : Mirrors false ls ts) :
    Mirrors false (l :: ls) (⟨trim l, d, .close⟩ :: ts) := by
  obtain ⟨r, hr⟩ := isClosingLine_head hc
  have hblock : blockAfter false (trim l) = false := blockAfter_of_no_block (by rw [hr]; rfl)
  exact same (Token.trim_line_trim l d .close) (fun _ _ _ _ => kept_close _ hc) (by rwa [hblock])

theorem split {statement closer : List Char} (hc : isComment (trim l) = false)
    (hsplit : statementAndCloser? (trim l) = some (statement, closer))
    (ih : Mirrors false (statement :: closer :: ls) ts) : Mirrors false (l :: ls) ts := by
  refine ⟨fun {s s' n m prev} hs ha ho hclean => ?_⟩
  have hr : remark (trim l) = [] := by
    by_contra hr
    exact (ho.head (opensBlock_of_not_isComment hc)).1 ⟨hc, hr, by rw [hsplit]; rfl⟩
  obtain ⟨hparts, hkept⟩ := clean_split hs hc hr hsplit hclean
  rw [hkept]
  exact ih.clean_iff hs ha (ho.split hc hsplit) hparts

theorem line (hl : IsCode l) (ih : Mirrors false ls ts) :
    Mirrors false (l :: ls) (lineToken d l :: ts) := by
  have ht : trim (lineToken d l).line = spaced (trim l) := Token.trim_line _
  have hblock := blockAfter_of_no_block hl.noBlock
  cases hc : isComment (trim l) with
  | true =>
      rw [spaced_of_isComment (trim_trim l) hc] at ht
      refine same ht (fun _ _ _ hc' => ?_) (by rwa [hblock])
      rw [hc] at hc'
      cases hc'
  | false =>
      refine ⟨fun {s s' n m prev} hs ha ho hclean => ?_⟩
      have hnext : (step s (l, n)).1.inComment = false := by rw [inComment_step, hs, hblock]
      rw [clean_linesAfter_cons (m := m)]
      exact clean_cons_spaced ha hs hl hc (ho.noNewline l (List.mem_cons_self ..)) ht hclean
        fun halike => ih.clean_iff hnext halike (ho.of_cons hblock) (clean_cons.1 hclean).2

theorem braced {brace : List Char} {gap : List (List Char)} (hl : IsCode l)
    (hw : (lineToken d l).wantsBrace) (hgap : ∀ k ∈ gap, trim k = []) (hbrace : trim brace = ['{'])
    (ih : Mirrors false ls ts) :
    Mirrors false (l :: (gap ++ brace :: ls)) ((lineToken d l).braced :: ts) := by
  refine ⟨fun {s s' n m prev} hs ha ho hclean => ?_⟩
  obtain ⟨hfaults, s₂, halike, hs₂, hclean₂, hkept⟩ := clean_braced (m := m) ha hs hl hw hgap hbrace
    (ho.noNewline l (List.mem_cons_self ..)) (ho.head hl.noBlock).2 hclean
  have hrest : Ordinary false ls :=
    ((ho.of_cons (blockAfter_of_no_block hl.noBlock)).of_gap hgap).of_cons (by rw [hbrace]; rfl)
  rw [clean_linesAfter_cons (m := m), clean_cons, hkept]
  exact (and_iff_right hfaults).trans (ih.clean_iff hs₂ halike hrest hclean₂)

end Mirrors

/-- The lines of the tokens have no faults exactly if the lines read as them are kept. -/
theorem mirrors_of_reads {d : Nat} {b : Bool} {ls : List (List Char)} {ts : List Token}
    (h : Reads d b ls ts) : Mirrors b ls ts := by
  induction h with
  | done => exact .done _
  | blank hl _ ih => exact .blank hl ih
  | block hb _ ih => exact .block hb ih
  | close hc _ ih => exact .close hc ih
  | split hc hsplit _ ih => exact .split hc hsplit ih
  | line hl _ _ ih => exact .line hl ih
  | braced hl hw hgap hbrace _ ih => exact .braced hl hw hgap hbrace ih

/-- A brace that comes out of a comment closes a block that the source leaves open. -/
theorem whole_of_clean_format {x : List Char} (hclean : check (Source.lines x) = [])
    (hformat : check (Source.lines (Source.format x)) = []) :
    ∀ t ∈ codeLines x, ¬ SplitsRemark t := by
  have hbalanced : ∀ {y}, check (Source.lines y) = [] →
      (codeOfAll false (Source.lines y)).count '{' =
        (codeOfAll false (Source.lines y)).count '}' := by
    intro y hy
    exact ((unnested_check_iff (Source.lines y)).1.1 (hy ▸ unnested_nil)).2
  have hbefore := hbalanced hclean
  have hafter := hbalanced hformat
  obtain ⟨hopen, hclose⟩ := count_format x
  have hnone : (codeLines x).countP (SplitsRemark ·) = 0 := by omega
  exact fun t ht => by simpa using List.countP_eq_zero.1 hnone t ht

theorem check_format_eq_nil_iff {x : List Char} {ts : List Token}
    (h : Reads 0 false (Source.lines x) ts) :
    check (Source.lines (Source.format x)) = [] ↔ Clean {} 1 (linesAfter none ts) := by
  have hblanks : ∀ i, ∀ k ∈ List.replicate i ([] : List Char), trim k = [] := fun i k hk => by
    rw [List.eq_of_mem_replicate hk]
    rfl
  obtain ⟨i, hi⟩ := exists_dropFinalBlanks (linesAfter none ts)
  have hdrop : Clean {} 1 (dropFinalBlanks (linesAfter none ts) ++ List.replicate i []) ↔
      Clean {} 1 (dropFinalBlanks (linesAfter none ts)) := clean_append_blanks (hblanks i)
  rw [← hi] at hdrop
  rw [h.lines_format, clean_check]
  exact (clean_append_blanks (hblanks 1)).trans hdrop.symm

/-- A source without faults has none once formatted exactly if no line is split inside its comment
and each line of code is kept. In particular it has none if no line gains a space after a word that
decides how the line is checked. -/
theorem check_format_iff {x : List Char} (hclean : check (Source.lines x) = [])
    (hextend : ∀ t ∈ codeLines x, ¬ ClosesExtension t) :
    (check (Source.lines (Source.format x)) = [] ↔
        (∀ t ∈ codeLines x, ¬ SplitsRemark t) ∧ KeptFrom {} 1 (Source.lines x)) ∧
      ((∀ t ∈ codeLines x, ¬ SplitsRemark t ∧ ¬ GainsSpace t) →
        check (Source.lines (Source.format x)) = []) := by
  obtain ⟨ts, hreads⟩ := exists_reads 0 false (Source.lines x)
  have hnl : ∀ l ∈ Source.lines x, '\n' ∉ l := fun l => no_newline_of_mem_lines
  have hkept : (∀ t ∈ codeLines x, ¬ SplitsRemark t) →
      (check (Source.lines (Source.format x)) = [] ↔ KeptFrom {} 1 (Source.lines x)) := by
    intro hs
    have hordinary : Ordinary false (Source.lines x) :=
      ⟨hnl, fun t ht => ⟨hs t ht, hextend t ht⟩⟩
    exact (check_format_eq_nil_iff hreads).trans
      ((mirrors_of_reads hreads).clean_iff rfl (.refl _) hordinary (clean_check.1 hclean))
  refine ⟨⟨fun h => ?_, fun ⟨hs, hk⟩ => (hkept hs).2 hk⟩, fun h => ?_⟩
  · have hs := whole_of_clean_format hclean h
    exact ⟨hs, (hkept hs).1 h⟩
  · exact (hkept fun t ht => (h t ht).1).2 (keptFrom_of_lines rfl hnl h)

/-- An opener and its brace are put on one line, a statement and its closing brace on two. -/
theorem check_format_laid_out :
    (check (Source.lines "enum A\n\x7b\n  X=0 ; \x7d;\n".toList) = [] ∧
      (∀ t ∈ codeLines "enum A\n\x7b\n  X=0 ; \x7d;\n".toList, ¬ ClosesExtension t) ∧
      ∀ t ∈ codeLines "enum A\n\x7b\n  X=0 ; \x7d;\n".toList, ¬ SplitsRemark t ∧ ¬ GainsSpace t) ∧
    check (Source.lines (Source.format "enum A\n\x7b\n  X=0 ; \x7d;\n".toList)) = [] := by
  have hclean : check (Source.lines "enum A\n\x7b\n  X=0 ; \x7d;\n".toList) = [] := by decide
  have hextend : ∀ t ∈ codeLines "enum A\n\x7b\n  X=0 ; \x7d;\n".toList, ¬ ClosesExtension t := by
    decide
  have hkept : ∀ t ∈ codeLines "enum A\n\x7b\n  X=0 ; \x7d;\n".toList,
      ¬ SplitsRemark t ∧ ¬ GainsSpace t := by
    decide
  exact ⟨⟨hclean, hextend, hkept⟩, (check_format_iff hclean hextend).2 hkept⟩

/-- The brace of the comment becomes a closing line, and the last brace then closes nothing. -/
theorem check_format_broken :
    ¬ ∀ x, check (Source.lines x) = [] → check (Source.lines (Source.format x)) = [] := by
  intro h
  have hformat := h "message A \x7b\n  int32 a = 1; // b; \x7d\n\x7d\n".toList (by decide)
  revert hformat
  decide

end SchemaLint.Structure
