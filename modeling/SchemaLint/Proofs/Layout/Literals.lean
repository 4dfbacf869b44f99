import SchemaLint.Proofs.Layout.AssignmentSpacing
import SchemaLint.Proofs.Layout.Collect
import SchemaLint.Proofs.Layout.MethodSpacing
import SchemaLint.Proofs.Line.Quotes

/-! Quoted text under formatting. The rules of spacing know no quotes, but none of them acts across
one: what becomes of the text between two quotes depends on what its line holds, on the text itself
and, in fields and enum values, on what precedes it. -/

namespace SchemaLint.Layout
open SchemaLint.Text SchemaLint.Line

/-- A text between two neighbouring quotes of a line. -/
structure Literal where
  /-- What stands on the line, but for a closing brace that moves to a line of its own. -/
  line : List Char
  /-- What precedes the text and its opening quote on the line. -/
  before : List Char
  text : List Char
  deriving DecidableEq

/-- What a text between quotes becomes on a line of a category. -/
def spaceLiteral (category : Category) (before text : List Char) : List Char :=
  match category with
  | .rpc => spaceParens text
  | .field | .enumValue => spaceAssignmentAfter before text
  | _ => text

def Literal.spaced (l : Literal) : List Char :=
  spaceLiteral (readLine l.line).1 l.before l.text

/-- What the split of closing braces leaves on a line. -/
def statementOf (t : List Char) : List Char :=
  if isComment t then t else ((statementAndCloser? t).map Prod.fst).getD t

def lineLiterals (t : List Char) : List Literal :=
  (between t).mapIdx fun k text => ⟨statementOf t, upToQuote k t, text⟩

/-- The literals of a source outside block comments, in order. -/
def literals (x : List Char) : List Literal :=
  collect (fun _ => []) lineLiterals false (Source.lines x)

theorem tightenBefore_append_cons {p : Char → Bool} {x : Char} (hx : isBlank x = false)
    (hp : p x = false) (s t : List Char) :
    tightenBefore p (s ++ x :: t) = tightenBefore p s ++ x :: tightenBefore p t := by
  induction s with
  | nil =>
      rw [List.nil_append, tightenBefore_cons, hx, Bool.false_and, if_neg Bool.false_ne_true]
      rfl
  | cons c s ih =>
      have hhead : (tightenBefore p s ++ x :: tightenBefore p t).head?.any p =
          (tightenBefore p s).head?.any p := by
        cases tightenBefore p s with
        | nil => simp [hp]
        | cons d u => rfl
      rw [List.cons_append, tightenBefore_cons, ih, hhead, tightenBefore_cons]
      split <;> rfl

theorem tightenAfter_append_cons {p : Char → Bool} {x : Char} (hx : isBlank x = false)
    (hp : p x = false) (s t : List Char) :
    tightenAfter p (s ++ x :: t) = tightenAfter p s ++ x :: tightenAfter p t := by
  have hr : (s ++ x :: t).reverse = t.reverse ++ x :: s.reverse := by simp
  rw [tightenAfter, hr, tightenBefore_append_cons hx hp, tightenAfter, tightenAfter]
  simp

theorem exists_of_append_eq_append_cons {x : Char} {p u b v : List Char} (h : x ∉ p)
    (he : p ++ u = b ++ x :: v) : ∃ b', b = p ++ b' ∧ u = b' ++ x :: v := by
  rcases List.append_eq_append_iff.1 he with ⟨b', rfl, hu⟩ | ⟨c, rfl, hc⟩
  · exact ⟨b', rfl, hu⟩
  · cases c with
    | nil => exact ⟨[], by simp, hc.symm⟩
    | cons d c =>
        rw [(List.cons.inj hc).1] at h
        simp at h

theorem afterReturns?_append_quote (s t : List Char) :
    afterReturns? (s ++ '"' :: t) = (afterReturns? s).map (· ++ '"' :: t) := by
  refine Option.ext fun inner => ?_
  rw [afterReturns?_iff, Option.map_eq_some_iff]
  constructor
  · rintro ⟨g, h, hg, hh, he⟩
    have hquote : '"' ∉ returnsLead g h := fun hm => by
      rcases mem_returnsLead hg hh hm with hb | hm
      · revert hb
        decide
      · revert hm
        decide
    obtain ⟨b, rfl, rfl⟩ := exists_of_append_eq_append_cons hquote he.symm
    exact ⟨b, afterReturns?_iff.2 ⟨g, h, hg, hh, rfl⟩, rfl⟩
  · rintro ⟨b, hb, rfl⟩
    obtain ⟨g, h, hg, hh, rfl⟩ := afterReturns?_iff.1 hb
    exact ⟨g, h, hg, hh, by simp⟩

theorem spaceReturns_append_quote (s t : List Char) :
    spaceReturns (s ++ '"' :: t) = spaceReturns s ++ '"' :: spaceReturns t := by
  induction s with
  | nil => rw [List.nil_append, spaceReturns_cons, if_neg (by decide)]; rfl
  | cons c s ih =>
      rw [List.cons_append, spaceReturns_cons, ih, afterReturns?_append_quote, spaceReturns_cons]
      by_cases hc : c = ')'
      · rw [if_pos hc, if_pos hc]
        cases afterReturns? (spaceReturns s) with
        | none => rfl
        | some inner => simp
      · rw [if_neg hc, if_neg hc]
        rfl

theorem spaceParens_append_quote (s t : List Char) :
    spaceParens (s ++ '"' :: t) = spaceParens s ++ '"' :: spaceParens t := by
  rw [spaceParens, tightenAfter_append_cons (by decide) (by decide),
    tightenBefore_append_cons (by decide) (by decide),
    tightenBefore_append_cons (by decide) (by decide), spaceReturns_append_quote,
    tightenBefore_append_cons (by decide) (by decide)]
  rfl

theorem spaceFinalBrace_append_quote (s t : List Char) :
    spaceFinalBrace (s ++ '"' :: t) = s ++ '"' :: spaceFinalBrace t := by
  have hend : ∀ f, trimEnd (s ++ '"' :: f) = s ++ '"' :: trimEnd f := by
    intro f
    have := trimEnd_append_of_solid (s := s ++ ['"']) (endsSolid_concat.2 (by decide)) f
    rwa [List.append_assoc, List.append_assoc] at this
  obtain ⟨r, rfl⟩ : ∃ r : List Char, t = r.reverse := ⟨t.reverse, by simp⟩
  have hr : (s ++ '"' :: r.reverse).reverse = r ++ '"' :: s.reverse := by simp
  rw [spaceFinalBrace, hr, spaceFinalBrace, List.reverse_reverse]
  rcases r with _ | ⟨c, r⟩
  · rfl
  · by_cases hbrace : c = '{'
    · subst hbrace
      simp [hend]
    · by_cases hfeed : c = '\n'
      · subst hfeed
        rcases r with _ | ⟨d, r⟩
        · simp
        · by_cases hbrace : d = '{'
          · subst hbrace
            simp [hend]
          · simp [hbrace]
      · simp [hbrace, hfeed]

theorem exists_spaceAssignmentAfter (s a t : List Char) :
    ∃ t', spaceAssignmentAfter s (a ++ '"' :: t) = spaceAssignmentAfter s a ++ '"' :: t' := by
  have hequals : ∃ u, (if '=' ∈ s then a ++ '"' :: t else spaceEquals (a ++ '"' :: t)) =
      (if '=' ∈ s then a else spaceEquals a) ++ '"' :: u := by
    split
    · exact ⟨t, rfl⟩
    · exact ⟨_, spaceEquals_append_cons (by decide) (by decide) a t⟩
  obtain ⟨u, hu⟩ := hequals
  by_cases hs : spaceAssignment s = spaceEquals s
  · simp only [spaceAssignmentAfter, hu, if_pos hs]
    exact ⟨_, tightenFirstSemicolon_append_cons (by decide) (by decide) _ u⟩
  · simp only [spaceAssignmentAfter, hu, if_neg hs]
    exact ⟨u, rfl⟩

theorem respaced_spaceAssignmentAfter (s t : List Char) :
    Respaced false t (spaceAssignmentAfter s t) := by
  rcases spaceAssignmentAfter_cases s t with h | h | h | h <;> rw [h]
  · exact .refl t
  · exact respaced_spaceEquals t
  · exact respaced_tightenFirstSemicolon t
  · exact respaced_spaceAssignment t

theorem respaced_spaceLiteral (category : Category) (before text : List Char) :
    Respaced false text (spaceLiteral category before text) := by
  cases category with
  | rpc => exact respaced_spaceParens text
  | field | enumValue => exact respaced_spaceAssignmentAfter before text
  | _ => exact .refl text

theorem no_quote_of_respaced {wide : Bool} {s t : List Char} (h : Respaced wide s t)
    (hs : '"' ∉ s) : '"' ∉ t := by
  rw [← List.count_eq_zero, h.count (by decide), List.count_eq_zero]
  exact hs

theorem spaceLiteral_statement {keyword : String} {category : Category}
    (h : (keyword, category) ∈ statementKeywords) (before text : List Char) :
    spaceLiteral category before text = text := by
  simp only [statementKeywords, List.mem_cons, Prod.mk.injEq, List.not_mem_nil, or_false] at h
  rcases h with ⟨-, rfl⟩ | ⟨-, rfl⟩ | ⟨-, rfl⟩ | ⟨-, rfl⟩ <;> rfl

theorem spaceKeyword_append_quote {keyword : String} (hk : keyword ∈ lineKeywords)
    {g u before v : List Char} (hg : Blank g)
    (h : keyword.toList ++ (g ++ u) = before ++ '"' :: v) :
    ∃ b, spaceKeyword keyword u = spaceKeyword keyword b ++ '"' :: v ∧
      (spaceKeyword keyword b).count '"' = before.count '"' := by
  have hkeyword : '"' ∉ keyword.toList := fun hm =>
    absurd ((word_of_lineKeyword keyword hk).2 _ hm) (by decide)
  have hlead : '"' ∉ keyword.toList ++ g := by simp [hkeyword, no_quote_of_blank hg]
  rw [← List.append_assoc] at h
  obtain ⟨b, rfl, rfl⟩ := exists_of_append_eq_append_cons hlead h
  refine ⟨b, by simp [spaceKeyword], ?_⟩
  rw [spaceKeyword, List.count_append, List.count_append, List.count_eq_zero.2 hkeyword,
    List.count_eq_zero.2 hlead, List.count_cons_of_ne (by decide)]

/-- What a text between quotes becomes has as many quotes before it. -/
theorem Spelled.literal {s t : List Char} {category : Category} (h : Spelled s category t)
    {before text rest : List Char} (hs : s = before ++ '"' :: (text ++ '"' :: rest)) :
    ∃ before' rest', t = before' ++ '"' :: (spaceLiteral category before text ++ '"' :: rest') ∧
      before'.count '"' = before.count '"' := by
  have assignment : ∃ before' rest', spaceAssignment s =
      before' ++ '"' :: (spaceAssignmentAfter before text ++ '"' :: rest') ∧
        before'.count '"' = before.count '"' := by
    obtain ⟨rest', hrest⟩ := exists_spaceAssignmentAfter before text rest
    have hbefore : Respaced false _ _ := respaced_spaceAssignment before
    refine ⟨spaceAssignment before, rest', ?_, hbefore.count (by decide)⟩
    rw [hs, spaceAssignment_append_cons (by decide) (by decide) (by decide), hrest]
  cases h with
  | comment => exact ⟨before, rest, hs, rfl⟩
  | block hk _ hg _ he =>
      obtain ⟨b, hb, hcount⟩ :=
        spaceKeyword_append_quote (mem_lineKeywords_of_block hk) hg (he.symm.trans hs)
      refine ⟨_, spaceFinalBrace rest, ?_, hcount⟩
      rw [spaceOpener, hb, spaceFinalBrace_append_quote, spaceFinalBrace_append_quote]
      rfl
  | @syntaxDecl g h u hg hh _ he =>
      have hlead : '"' ∉ "syntax".toList ++ (g ++ '=' :: h) := by
        simp [no_quote_of_blank hg, no_quote_of_blank hh]
      have hline : ("syntax".toList ++ (g ++ '=' :: h)) ++ u =
          before ++ '"' :: (text ++ '"' :: rest) := by
        rw [← hs, he]
        simp
      obtain ⟨b, rfl, rfl⟩ := exists_of_append_eq_append_cons hlead hline
      refine ⟨"syntax = ".toList ++ b, rest, by rw [List.append_assoc]; rfl, ?_⟩
      rw [List.count_append, List.count_append, List.count_eq_zero.2 hlead]
      rfl
  | statement hk _ hg _ he =>
      obtain ⟨b, hb, hcount⟩ :=
        spaceKeyword_append_quote (mem_lineKeywords_of_statement hk) hg (he.symm.trans hs)
      exact ⟨_, rest, by rw [hb, spaceLiteral_statement hk], hcount⟩
  | rpc _ hg _ he =>
      have hk : "rpc" ∈ lineKeywords := by decide
      obtain ⟨b, hb, hcount⟩ := spaceKeyword_append_quote hk hg (he.symm.trans hs)
      have hbefore : Respaced false _ _ := respaced_spaceParens (spaceKeyword "rpc" b)
      refine ⟨spaceParens (spaceKeyword "rpc" b), spaceFinalBrace (spaceParens rest), ?_, ?_⟩
      · rw [spaceRpc_eq, hb, spaceMethod, spaceParens_append_quote, spaceParens_append_quote,
          spaceFinalBrace_append_quote, spaceFinalBrace_append_quote]
        rfl
      · rw [hbefore.count (by decide), hcount]
  | field => exact assignment
  | enumValue => exact assignment
  | other => exact ⟨before, rest, hs, rfl⟩

theorem getElem?_lineLiterals {t before text rest : List Char}
    (ht : t = before ++ '"' :: (text ++ '"' :: rest)) (h : '"' ∉ text) :
    (lineLiterals t)[before.count '"']? = some ⟨statementOf t, before, text⟩ := by
  rw [lineLiterals, List.getElem?_mapIdx, ht, getElem?_between before rest h, upToQuote_append]
  rfl

theorem length_lineLiterals (t : List Char) : (lineLiterals t).length = (between t).length := by
  rw [lineLiterals, List.length_mapIdx]

theorem map_text_lineLiterals (t : List Char) : (lineLiterals t).map Literal.text = between t := by
  refine List.ext_getElem? fun k => ?_
  rw [List.getElem?_map, lineLiterals, List.getElem?_mapIdx, Option.map_map]
  exact Option.map_id'

theorem statementOf_of_none {t : List Char} (h : statementAndCloser? t = none) :
    statementOf t = t := by
  rw [statementOf, h]
  exact ite_self t

/-- A line that is not split has in normal spacing the texts of its literals, each spaced. -/
theorem between_spaced {t : List Char} (ht : statementOf t = t) :
    between (spaced t) = (lineLiterals t).map Literal.spaced := by
  have hlength : (between (readLine t).2).length = (between t).length := by
    rw [length_between, length_between, (respaced_readLine t).count (by decide)]
  rw [spaced, between_trim]
  refine List.ext_getElem? fun k => ?_
  by_cases hk : k < (between t).length
  · obtain ⟨before, text, rest, he, htext, rfl⟩ := exists_between hk
    obtain ⟨before', rest', hspaced, hcount⟩ := (spelled_readLine t).literal he
    have hquote := no_quote_of_respaced (respaced_spaceLiteral (readLine t).1 before text) htext
    rw [List.getElem?_map, getElem?_lineLiterals he htext, hspaced, ← hcount,
      getElem?_between _ _ hquote, ht]
    rfl
  · rw [List.getElem?_eq_none (by omega), List.getElem?_eq_none]
    rw [List.length_map, length_lineLiterals]
    omega

/-- The literals of a line that is split are those of its statement. -/
theorem lineLiterals_split {t statement closer : List Char} (hc : isComment t = false)
    (h : statementAndCloser? t = some (statement, closer)) :
    lineLiterals t = lineLiterals statement := by
  have hstatement : statementOf t = statement := by
    rw [statementOf, if_neg (by simp [hc]), h]
    rfl
  obtain ⟨g, hg, he, -, hbrace, -, hcl⟩ := statementAndCloser?_eq_some_iff.1 h
  have hself : statementOf statement = statement :=
    statementOf_of_none (statementAndCloser?_of_no_brace hbrace)
  have hquote : '"' ∉ g ++ closer := by
    have hcloser : '"' ∉ closer := by rcases closer_cases hcl with rfl | rfl <;> decide
    simp [no_quote_of_blank hg, hcloser]
  have hbetween : between t = between statement := by rw [he, between_append_right hquote]
  refine List.ext_getElem? fun k => ?_
  by_cases hk : k < (between statement).length
  · obtain ⟨before, text, rest, hs, htext, rfl⟩ := exists_between hk
    have ht : t = before ++ '"' :: (text ++ '"' :: (rest ++ (g ++ closer))) := by
      rw [he, hs]
      simp
    rw [getElem?_lineLiterals ht htext, getElem?_lineLiterals hs htext, hstatement, hself]
  · rw [List.getElem?_eq_none (by rw [length_lineLiterals, hbetween]; omega),
      List.getElem?_eq_none (by rw [length_lineLiterals]; omega)]

/-- What a line becomes has the texts of its literals, each spaced. -/
theorem between_outputs {t : List Char} (ht : trim t = t) :
    (outputs t).flatMap between = (lineLiterals t).map Literal.spaced := by
  have h := becomes t
  generalize outputs t = us at h ⊢
  cases h with
  | blank hn =>
      rw [hn]
      rfl
  | close hclose =>
      have hself := statementOf_of_none (statementAndCloser?_of_closing hclose)
      rw [List.flatMap_singleton, ← between_spaced hself, spaced_of_closing ht hclose]
  | whole _ hw =>
      have hself : statementOf t = t := hw.elim (fun hc => if_pos hc) statementOf_of_none
      rw [List.flatMap_singleton, between_spaced hself]
  | @split statement closer _ hc hs =>
      obtain ⟨g, -, -, -, hbrace, -, hcl⟩ := statementAndCloser?_eq_some_iff.1 hs
      have hself : statementOf statement = statement :=
        statementOf_of_none (statementAndCloser?_of_no_brace hbrace)
      have hcloser : between closer = [] := by
        rcases closer_cases hcl with rfl | rfl <;> rfl
      rw [lineLiterals_split hc hs, ← between_spaced hself]
      simp [hcloser]

theorem map_collect {β γ : Type} (f : β → γ) (code : List Char → List β) (b : Bool)
    (ls : List (List Char)) : (collect (fun _ => []) code b ls).map f =
      collect (fun _ => []) (fun t => (code t).map f) b ls := by
  induction ls generalizing b with
  | nil => rfl
  | cons l ls ih =>
      rw [collect, collect, List.map_append, ih]
      split <;> rfl

theorem map_text_literals (x : List Char) : (literals x).map Literal.text =
    collect (fun _ => []) between false (Source.lines x) := by
  simp only [literals, map_collect, map_text_lineLiterals]

/-- The texts between quotes in the output are those of the source, each spaced. -/
theorem map_text_literals_format (x : List Char) :
    (literals (Source.format x)).map Literal.text = (literals x).map Literal.spaced := by
  have hbrace : ∀ s, remark s = [] → StartsWord s → statementAndCloser? (trim s) = none →
      between (trim (s ++ " \x7b".toList)) = between (trim s) ++ between ['{'] := by
    intro s _ _ _
    have hend : '"' ∉ " \x7b".toList := by decide
    rw [between_trim, between_trim, between_append_right hend]
    exact (List.append_nil _).symm
  obtain ⟨out, m, n, hf, hx⟩ := collect_format (fun _ => []) between (by rfl) hbrace x
  have hblanks : ∀ k, (List.replicate k ([] : List (List Char))).flatten = [] := by simp
  have hlines : collect (fun _ => []) (fun t => (outputs t).flatMap between) false
      (Source.lines x) = (literals x).map Literal.spaced := by
    rw [literals, map_collect]
    exact collect_congr fun t ht => between_outputs (trim_of_mem_codeLines ht)
  rw [map_text_literals, hf, ← hlines, hx, hblanks, hblanks]

/-- Normal spacing leaves the text as it is. -/
def Literal.Kept (l : Literal) : Prop :=
  l.spaced = l.text

/-- No rule of spacing acts on the text: it holds no punctuation, or its line is neither a method
nor a field nor an enum value. -/
def Literal.OutOfReach (l : Literal) : Prop :=
  (∀ c ∈ l.text, isMark c = false) ∨ (readLine l.line).1 ∉ [.rpc, .field, .enumValue]

theorem Literal.OutOfReach.kept {l : Literal} (h : l.OutOfReach) : l.Kept := by
  rcases h with h | h
  · exact (respaced_spaceLiteral _ l.before l.text).eq_of_unmarked h
  · rw [Kept, spaced]
    generalize (readLine l.line).1 = category at h
    cases category with
    | rpc | field | enumValue => exact absurd (by decide) h
    | _ => rfl

/-- Every text between quotes comes out in its place. It is the same exactly if the spacing of its
line keeps it, and so it is if no rule acts on it. -/
theorem literals_format (x : List Char) :
    List.Forall₂ (fun l l' => (l'.text = l.text ↔ l.Kept) ∧ (l.OutOfReach → l'.text = l.text))
      (literals x) (literals (Source.format x)) := by
  have hmap : List.Forall₂ (· = ·) ((literals x).map Literal.spaced)
      ((literals (Source.format x)).map Literal.text) := by
    rw [map_text_literals_format, List.forall₂_eq_eq_eq]
  have hspaced := List.forall₂_map_left_iff.1 (List.forall₂_map_right_iff.1 hmap)
  refine hspaced.imp fun l l' h => ?_
  rw [← h]
  exact ⟨Iff.rfl, Literal.OutOfReach.kept⟩

/-- The semicolon in the default is tightened, and the one that ends the field is not. -/
theorem literal_changes :
    ¬ ∀ x, (literals (Source.format x)).map Literal.text = (literals x).map Literal.text := by
  intro h
  have := h "message A \x7b\n  optional string s = 1 [default = \"a ;b\"] ;\n\x7d\n".toList
  revert this
  decide

end SchemaLint.Layout
