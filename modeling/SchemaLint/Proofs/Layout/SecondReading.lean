import SchemaLint.Proofs.Layout.Collect
import SchemaLint.Proofs.Layout.Rereading

/-! The output, read again. Its lines are those of the tokens and the blank lines between them, so
the second reading follows the first, token by token, until a line is read differently. -/

namespace SchemaLint.Layout
open SchemaLint.Text SchemaLint.Line

/-- What the line of a token is read as when the output is read, as far as it is not split. -/
def Token.again (t : Token) : Token :=
  match t.category with
  | .comment | .close => t
  | _ => lineToken t.depth t.text

/-- The line of a token is read again as one line with the same text. -/
def Token.Steady (t : Token) : Prop :=
  t.category = .comment ∨ t.category = .close ∨
    (isComment (trim t.text) ∨ statementAndCloser? (trim t.text) = none) ∧ t.again.text = t.text

/-- A blank line goes between two tokens, the first of which may be missing. -/
def blankBetween (prev : Option Token) (t : Token) : Bool :=
  prev.any (needsBlank · t)

/-- The tokens are read again as tokens with the same texts, between which the same blank lines
go, and no brace moves up to an opener. -/
def Settled (prev : Option Token) : List Token → Prop
  | [] => True
  | t :: ts =>
    t.Steady ∧ blankBetween (prev.map Token.again) t.again = blankBetween prev t ∧
      ¬ (t.again.wantsBrace ∧ ∃ u ∈ ts.head?, trim u.text = ['{']) ∧ Settled (some t) ts

theorem linesAfter_cons_eq (prev : Option Token) (t : Token) (ts : List Token) :
    linesAfter prev (t :: ts) =
      (if blankBetween prev t then [[]] else []) ++ t.line :: linesAfter (some t) ts :=
  linesAfter_cons prev t ts

theorem linesAfter_blank {us : List Token} (h : ∀ t ∈ us, t.text = []) (prev : Option Token) :
    ∃ n, linesAfter prev us = List.replicate n [] := by
  induction us generalizing prev with
  | nil => exact ⟨0, rfl⟩
  | cons t us ih =>
      obtain ⟨ht, hus⟩ := List.forall_mem_cons.1 h
      obtain ⟨n, hn⟩ := ih hus (some t)
      have hline : t.line = [] := Token.line_eq_nil_iff.2 ht
      rw [linesAfter_cons, hn, hline]
      split
      · exact ⟨n + 2, rfl⟩
      · exact ⟨n + 1, rfl⟩

/-- The outputs of two tokens with more to follow, compared line by line. -/
theorem dropFinalBlanks_linesAfter_inj {p q : Option Token} {t u : Token} {ts us : List Token}
    (hline : t.line = [] ↔ u.line = [])
    (hblank : t.line = [] → blankBetween p t = blankBetween q u) :
    dropFinalBlanks (linesAfter p (t :: ts)) = dropFinalBlanks (linesAfter q (u :: us)) ↔
      blankBetween p t = blankBetween q u ∧ t.line = u.line ∧
        dropFinalBlanks (linesAfter (some t) ts) = dropFinalBlanks (linesAfter (some u) us) := by
  rw [linesAfter_cons_eq, linesAfter_cons_eq]
  by_cases he : blankBetween p t = blankBetween q u
  · rw [he]
    cases blankBetween q u with
    | true =>
        simp only [if_true, List.singleton_append, dropFinalBlanks_cons_inj, true_and]
    | false =>
        simp only [Bool.false_eq_true, if_false, List.nil_append, dropFinalBlanks_cons_inj,
          true_and]
  · have ht : t.line ≠ [] := fun h => he (hblank h)
    have hu : u.line ≠ [] := fun h => ht (hline.2 h)
    simp only [he, false_and, iff_false]
    cases hp : blankBetween p t <;> cases hq : blankBetween q u
    · exact absurd (hp.trans hq.symm) he
    · simp [dropFinalBlanks_cons_inj, ht]
    · simp [dropFinalBlanks_cons_inj, hu.symm]
    · exact absurd (hp.trans hq.symm) he

theorem Token.line_inj {t u : Token} (h : t.depth = u.depth) (ht : t.text ≠ []) (hu : u.text ≠ []) :
    t.line = u.line ↔ t.text = u.text := by
  rw [line, line, if_neg ht, if_neg hu, h]
  exact Iff.of_eq (List.append_cancel_left_eq ..)

theorem braceFollows_append_blanks (ls : List (List Char)) (n : Nat) :
    BraceFollows (ls ++ List.replicate n []) ↔ BraceFollows ls := by
  induction ls with
  | nil =>
      induction n with
      | zero => exact Iff.rfl
      | succ n ih => exact ih
  | cons l ls ih => rw [List.cons_append, BraceFollows, BraceFollows, ih]

theorem reads_blanks (d : Nat) (b : Bool) (n : Nat) :
    ∃ us : List Token, (∀ t ∈ us, t.text = []) ∧ Reads d b (List.replicate n []) us := by
  induction n with
  | zero => exact ⟨[], by simp, .done⟩
  | succ n ih =>
      obtain ⟨us, hus, h⟩ := ih
      cases b with
      | false => exact ⟨us, hus, .blank rfl h⟩
      | true => exact ⟨_, List.forall_mem_cons.2 ⟨rfl, hus⟩, .block rfl h⟩

theorem Reads.append_blanks {d : Nat} {b : Bool} {ls : List (List Char)} {ts : List Token}
    (h : Reads d b ls ts) (n : Nat) :
    ∃ us : List Token, (∀ t ∈ us, t.text = []) ∧
      Reads d b (ls ++ List.replicate n []) (ts ++ us) := by
  induction h with
  | @done d b => exact reads_blanks d b n
  | blank hl _ ih =>
      obtain ⟨us, hus, h⟩ := ih
      exact ⟨us, hus, .blank hl h⟩
  | block hb _ ih =>
      obtain ⟨us, hus, h⟩ := ih
      exact ⟨us, hus, .block hb h⟩
  | close hc _ ih =>
      obtain ⟨us, hus, h⟩ := ih
      exact ⟨us, hus, .close hc h⟩
  | split hc hs _ ih =>
      obtain ⟨us, hus, h⟩ := ih
      exact ⟨us, hus, .split hc hs h⟩
  | line hcode hb _ ih =>
      obtain ⟨us, hus, h⟩ := ih
      exact ⟨us, hus, .line hcode (fun hw hf => hb hw ((braceFollows_append_blanks _ n).1 hf)) h⟩
  | braced hcode hw hg hbr _ ih =>
      obtain ⟨us, hus, h⟩ := ih
      refine ⟨us, hus, ?_⟩
      rw [List.cons_append, List.append_assoc]
      exact .braced hcode hw hg hbr h

/-- The source after two formattings, by a reading of the output of the first. -/
theorem exists_reads_again {x : List Char} {ts : List Token}
    (h : Reads 0 false (Source.lines x) ts) :
    ∃ us, Reads 0 false (linesAfter none ts) us ∧
      (Source.format (Source.format x) = Source.format x ↔
        dropFinalBlanks (linesAfter none us) = dropFinalBlanks (linesAfter none ts)) := by
  obtain ⟨n, hn⟩ := exists_dropFinalBlanks (linesAfter none ts)
  obtain ⟨vs, hvs⟩ := exists_reads 0 false (dropFinalBlanks (linesAfter none ts))
  obtain ⟨ws, hws, hread⟩ := hvs.append_blanks n
  obtain ⟨ws', hws', hread'⟩ := hvs.append_blanks 1
  rw [← hn] at hread
  refine ⟨_, hread, ?_⟩
  have hdrop : ∀ {us : List Token}, (∀ t ∈ us, t.text = []) →
      dropFinalBlanks (linesAfter none (vs ++ us)) = dropFinalBlanks (linesAfter none vs) := by
    intro us hus
    obtain ⟨k, hk⟩ := linesAfter_blank hus (vs.getLast?.or none)
    rw [linesAfter_append, hk, dropFinalBlanks_append_blanks]
  have hlines := h.lines_format
  rw [← List.replicate_one] at hlines
  rw [← hlines] at hread'
  have hformat : Source.format x = render ts := by rw [Source.format, reads_iff.1 h]
  have hagain : Source.format (Source.format x) = render (vs ++ ws') := by
    rw [Source.format, reads_iff.1 hread']
  rw [hagain, hformat, render_inj (hread'.no_newline fun l => no_newline_of_mem_lines)
    (h.no_newline fun l => no_newline_of_mem_lines), hdrop hws, hdrop hws']

theorem trim_eq_of_ink {c : Char} {s : List Char} (h : ink s = [c]) : trim s = [c] := by
  have hs := startsSolid_trim s
  have he := endsSolid_trim s
  have hi := ink_trim s
  rw [h] at hi
  cases ht : trim s with
  | nil =>
      rw [ht] at hi
      cases hi
  | cons d t =>
      rw [ht] at hs he hi
      rw [ink_cons_of_not (startsSolid_cons.1 hs)] at hi
      obtain ⟨rfl, hb⟩ := List.cons.inj hi
      have hblank := ink_eq_nil_iff.1 hb
      cases t with
      | nil => rfl
      | cons e t => exact absurd hblank (not_blank_of_endsSolid (by simp) he.of_cons)

theorem ink_lineToken (d : Nat) (l : List Char) : ink (lineToken d l).text = ink l := by
  rw [lineToken, ← (respaced_readLine (trim l)).ink, ink_trim]

theorem ink_braced (t : Token) : ink t.braced.text = ink t.text ++ ['{'] := by
  rw [Token.braced, ink_append]
  rfl

theorem ink_line (t : Token) : ink t.line = ink t.text := by
  rw [← ink_trim t.line, t.trim_line, ink_trim]

theorem trim_ne_nil_iff_ink {s : List Char} : trim s ≠ [] ↔ ink s ≠ [] := by
  rw [ne_eq, trim_eq_nil_iff, ← ink_eq_nil_iff]

/-- A token of code shows what its line shows. -/
theorem trim_lineToken_text {d : Nat} {l : List Char} (h : IsCode l) :
    trim (lineToken d l).text ≠ [] ∧ (trim (lineToken d l).text = ['{'] → trim l = ['{']) := by
  have hink := ink_lineToken d l
  refine ⟨?_, fun hbrace => ?_⟩
  · rw [trim_ne_nil_iff_ink, hink, ← trim_ne_nil_iff_ink]
    exact h.nonblank
  · rw [← ink_trim, hbrace] at hink
    exact trim_eq_of_ink hink.symm

/-- An opener with its brace shows more than the brace. -/
theorem trim_braced_text {d : Nat} {l : List Char} (h : IsCode l) :
    trim (lineToken d l).braced.text ≠ [] ∧ trim (lineToken d l).braced.text ≠ ['{'] := by
  have hink := ink_braced (lineToken d l)
  refine ⟨?_, fun hbrace => ?_⟩
  · rw [trim_ne_nil_iff_ink, hink]
    simp
  · have hn := (trim_lineToken_text (d := d) h).1
    rw [trim_ne_nil_iff_ink] at hn
    obtain ⟨c, r, hc⟩ := List.exists_cons_of_ne_nil hn
    rw [← ink_trim, hbrace, hc, show ink ['{'] = ['{'] from rfl] at hink
    simp at hink

/-- The first token outside a block comment is not blank, and is a brace only if a brace is the
first line that is not blank. -/
theorem Reads.head {d : Nat} {ls : List (List Char)} {t : Token} {ts : List Token}
    (h : Reads d false ls (t :: ts)) :
    trim t.text ≠ [] ∧ (trim t.text = ['{'] → BraceFollows ls) := by
  generalize hb : false = b at h
  generalize hts : t :: ts = us at h
  induction h with
  | done => cases hts
  | blank hl _ ih =>
      obtain ⟨h₁, h₂⟩ := ih hb hts
      refine ⟨h₁, fun h => ?_⟩
      rw [BraceFollows, if_pos hl]
      exact h₂ h
  | block hopen _ _ =>
      subst hb
      cases hts
      rw [Bool.false_or] at hopen
      refine ⟨?_, ?_⟩ <;> intro h <;> rw [trim_trim] at h <;> rw [h] at hopen <;> cases hopen
  | close hc _ _ =>
      cases hts
      refine ⟨?_, ?_⟩ <;> intro h <;> rw [trim_trim] at h <;> rw [h] at hc <;> cases hc
  | split hc hs _ ih =>
      obtain ⟨h₁, h₂⟩ := ih hb hts
      refine ⟨h₁, fun h => ?_⟩
      have hf := h₂ h
      obtain ⟨hst, hcode, -, -⟩ := isCode_of_split hc hs
      obtain ⟨-, -, -, ho, -, -, -⟩ := statementAndCloser?_eq_some_iff.1 hs
      rw [BraceFollows, if_neg hcode.nonblank, hst] at hf
      exact absurd (hf ▸ List.mem_cons_self ..) ho
  | @line d l ls us hcode _ _ _ =>
      cases hts
      obtain ⟨hn, hbrace⟩ := trim_lineToken_text (d := d) hcode
      refine ⟨hn, fun h => ?_⟩
      rw [BraceFollows, if_neg hcode.nonblank]
      exact hbrace h
  | @braced d l brace gap ls us hcode _ _ _ _ _ =>
      cases hts
      obtain ⟨hn, hbrace⟩ := trim_braced_text (d := d) hcode
      exact ⟨hn, fun h => absurd h hbrace⟩

theorem braceFollows_linesAfter {d : Nat} {ls : List (List Char)} {ts : List Token}
    (h : Reads d false ls ts) (prev : Option Token) :
    BraceFollows (linesAfter prev ts) ↔ ∃ u ∈ ts.head?, trim u.text = ['{'] := by
  cases ts with
  | nil => simp [BraceFollows]
  | cons t ts =>
      have hn := h.head.1
      have hstep : BraceFollows (t.line :: linesAfter (some t) ts) ↔ trim t.text = ['{'] := by
        rw [BraceFollows, t.trim_line, if_neg hn]
      have hblank : BraceFollows (linesAfter prev (t :: ts)) ↔ trim t.text = ['{'] := by
        rw [linesAfter_cons_eq]
        split
        · exact hstep
        · exact hstep
      rw [hblank]
      simp

theorem readLine_category (s : List Char) :
    (readLine s).1 ≠ .close ∧ ((readLine s).1 = .comment → startsWith "//".toList s) := by
  have h := spelled_readLine s
  generalize readLine s = r at h
  obtain ⟨category, t⟩ := r
  cases h with
  | comment hs => exact ⟨by simp, fun _ => hs⟩
  | statement hk =>
      simp only [statementKeywords, List.mem_cons, List.not_mem_nil, or_false, Prod.mk.injEq] at hk
      rcases hk with ⟨-, rfl⟩ | ⟨-, rfl⟩ | ⟨-, rfl⟩ | ⟨-, rfl⟩ <;> simp
  | block | syntaxDecl | rpc | field | enumValue | other => simp

theorem readLine_comment {s : List Char} (h : (readLine s).1 = .comment) :
    readLine s = (.comment, s) :=
  readLine_slashes ((readLine_category s).2 h)

theorem again_lineToken (d : Nat) (l : List Char) :
    (lineToken d l).again = lineToken d (lineToken d l).text := by
  by_cases hc : (readLine (trim l)).1 = .comment
  · have hr := readLine_comment hc
    have hagain : (lineToken d l).again = lineToken d l := by
      rw [Token.again, lineToken, hr]
    have ht : (lineToken d l).text = trim l := by rw [lineToken, hr]
    rw [hagain, ht, lineToken, lineToken, trim_trim]
  · have hclose := (readLine_category (trim l)).1
    unfold Token.again
    split
    case h_1 h => exact absurd h hc
    case h_2 h => exact absurd h hclose
    case h_3 => rfl

theorem steady_lineToken {d : Nat} {l : List Char} :
    (lineToken d l).Steady ↔
      (isComment (trim (lineToken d l).text) ∨
        statementAndCloser? (trim (lineToken d l).text) = none) ∧
        (lineToken d (lineToken d l).text).text = (lineToken d l).text := by
  rw [Token.Steady, again_lineToken]
  constructor
  · rintro (h | h | h)
    · have hr := readLine_comment (s := trim l) h
      have ht : (lineToken d l).text = trim l := by rw [lineToken, hr]
      have hs := (readLine_category (trim l)).2 h
      rw [ht, trim_trim]
      refine ⟨.inl (by rw [isComment, hs]; rfl), ?_⟩
      rw [lineToken, trim_trim, hr]
    · exact absurd h (readLine_category (trim l)).1
    · exact h
  · exact fun h => .inr (.inr h)

/-- The line of a token of code is a line of code again, if it is not split. -/
theorem isCode_line {d : Nat} {l : List Char} (h : IsCode l)
    (hw : isComment (trim (lineToken d l).text) ∨
      statementAndCloser? (trim (lineToken d l).text) = none) :
    IsCode (lineToken d l).line := by
  have ht : trim (lineToken d l).line = spaced (trim l) := Token.trim_line _
  refine ⟨?_, ?_, ?_, by rwa [Token.trim_line]⟩
  · rw [trim_ne_nil_iff_ink, ink_line, ink_lineToken, ← trim_ne_nil_iff_ink]
    exact h.nonblank
  · rw [ht, opensBlock_spaced (trim_trim l), h.noBlock]
  · rw [ht, isClosingLine_spaced (trim_trim l), h.noClose]

theorem lineToken_line (d : Nat) (t : Token) : lineToken d t.line = lineToken d t.text := by
  rw [lineToken, lineToken, t.trim_line]

theorem next_again {d : Nat} {l : List Char}
    (h : (lineToken d (lineToken d l).text).text = (lineToken d l).text) :
    (lineToken d (lineToken d l).text).next = (lineToken d l).next := by
  have hcategory : ((lineToken d (lineToken d l).text).category ≠ .comment) =
      ((lineToken d l).category ≠ .comment) := by
    rw [eq_iff_iff, not_iff_not]
    constructor
    · intro hc
      have hs : startsWith "//".toList (spaced (trim l)) := (readLine_category _).2 hc
      rcases spaced_head (trim_trim l) with he | ⟨c, -, hc, hw⟩
      · rw [he] at hs
        exact congrArg Prod.fst (readLine_slashes hs)
      · have := isComment_of_word hc hw
        rw [isComment, hs] at this
        cases this
    · intro hc
      have hr := readLine_comment hc
      have ht : (lineToken d l).text = trim l := by rw [lineToken, hr]
      rw [ht, lineToken, trim_trim, hr]
  have hdepth : (lineToken d (lineToken d l).text).depth = (lineToken d l).depth := rfl
  rw [Token.next, Token.next, Token.deepens, Token.deepens, h, hdepth]
  simp only [hcategory]

theorem reads_linesAfter_cons {d : Nat} {b : Bool} {prev : Option Token} {t : Token}
    {ts us : List Token} (h : b → blankBetween prev t = false)
    (hr : Reads d b (t.line :: linesAfter (some t) ts) us) :
    Reads d b (linesAfter prev (t :: ts)) us := by
  rw [linesAfter_cons_eq]
  split
  case isTrue hb =>
      cases b with
      | false => exact .blank rfl hr
      | true =>
          rw [h rfl] at hb
          cases hb
  case isFalse => exact hr

theorem blankBetween_comment {prev : Option Token} {t : Token}
    (hp : prev.any (·.category = .comment)) (ht : t.category = .comment) :
    blankBetween prev t = false := by
  cases prev with
  | none => rfl
  | some p =>
      have hp : p.category = .comment := by simpa using hp
      simp [blankBetween, needsBlank, hp, ht, Category.isHeader]

theorem again_of_comment {prev : Option Token} (hp : prev.any (·.category = .comment)) :
    prev.map Token.again = prev := by
  cases prev with
  | none => rfl
  | some p =>
      have hp : p.category = .comment := by simpa using hp
      rw [Option.map_some, Token.again, hp]

theorem readLine_braced {d : Nat} {l : List Char} (h : (lineToken d l).wantsBrace) :
    readLine (trim (lineToken d l).braced.text) = (.block, (lineToken d l).braced.text) := by
  obtain ⟨keyword, hk, g, rest, -, -, hn, hstart, hends, -, ht⟩ := wantsBrace_text h
  have htext : (lineToken d l).braced.text = spaceKeyword keyword (rest ++ " \x7b".toList) := by
    rw [Token.braced, ht, spaceKeyword, spaceKeyword, List.append_assoc, List.cons_append]
  have hopener : spaceOpener keyword (rest ++ " \x7b".toList) =
      spaceKeyword keyword (rest ++ " \x7b".toList) := by
    have hsolid : EndsSolid (spaceKeyword keyword rest) := endsSolid_spaceKeyword hn hends
    have hsplit : spaceKeyword keyword (rest ++ " \x7b".toList) =
        (spaceKeyword keyword rest ++ [' ']) ++ ['{'] := by simp [spaceKeyword]
    rw [spaceOpener, hsplit, spaceFinalBrace_concat, trimEnd_append (by decide), hsolid.trimEnd]
    simp
  have hsolid : EndsSolid (rest ++ " \x7b".toList) := (endsSolid_append (by simp)).2 (by decide)
  have hread := readLine_spaceOpener hk (by simp) ((startsSolid_append hn).2 hstart) hsolid
  rw [htext, ← hopener]
  exact hread

theorem statementAndCloser?_of_final_brace (s : List Char) :
    statementAndCloser? (s ++ ['{']) = none := by
  cases hs : statementAndCloser? (s ++ ['{']) with
  | none => rfl
  | some r =>
      obtain ⟨g, -, he, -, -, -, hc⟩ := statementAndCloser?_eq_some_iff.1 hs
      have hlast := congrArg List.getLast? he
      rw [← List.append_assoc] at hlast
      rcases closer_cases hc with hc | hc <;> rw [hc] at hlast <;> simp at hlast

theorem lineToken_braced {d : Nat} {l : List Char} (h : (lineToken d l).wantsBrace) :
    lineToken d (lineToken d l).braced.text = (lineToken d l).braced := by
  rw [lineToken, readLine_braced h, ← (Token.wantsBrace_iff.1 h).1]
  rfl

theorem braced_again {d : Nat} {l : List Char} (h : (lineToken d l).wantsBrace) :
    (lineToken d l).braced.again = (lineToken d l).braced := by
  have hcategory : (lineToken d l).braced.category = .block := (Token.wantsBrace_iff.1 h).1
  rw [Token.again, hcategory]
  exact lineToken_braced h

theorem wantsBrace_braced (t : Token) : t.braced.wantsBrace = false := by
  simp [Token.wantsBrace, Token.braced]

/-- The line of an opener whose brace was pulled up is a line of code that is not split. -/
theorem isCode_braced {d : Nat} {l : List Char} (hw : (lineToken d l).wantsBrace) :
    IsCode (lineToken d l).braced.line ∧
      statementAndCloser? (trim (lineToken d l).braced.text) = none := by
  obtain ⟨c, hc, hword⟩ := wantsBrace_head hw
  have hhead : (lineToken d l).braced.text.head? = some c :=
    List.mem_head?_append_of_mem_head? hc
  have htrim : trim (lineToken d l).braced.text = (lineToken d l).braced.text :=
    trim_of_head hhead hword ((endsSolid_append (by simp)).2 (by decide))
  have hnone : statementAndCloser? (trim (lineToken d l).braced.text) = none := by
    rw [htrim, Token.braced]
    have := statementAndCloser?_of_final_brace ((lineToken d l).text ++ [' '])
    rwa [List.append_assoc] at this
  refine ⟨⟨?_, ?_, ?_, ?_⟩, hnone⟩ <;> rw [Token.trim_line]
  · rw [htrim, Token.braced]
    simp
  · exact opensBlock_of_word (htrim.symm ▸ hhead) hword
  · exact isClosingLine_of_word (htrim.symm ▸ hhead) hword
  · exact .inr hnone

/-- A token that is read again as itself: the outputs differ after it or not at all. -/
theorem again_step {prev : Option Token} {t : Token} {ts us : List Token}
    (hagain : t.again = t) (hsteady : t.Steady) (hwants : t.wantsBrace = false)
    (hblank : t.text = [] → blankBetween (prev.map Token.again) t = blankBetween prev t)
    (ih : dropFinalBlanks (linesAfter (some t) us) = dropFinalBlanks (linesAfter (some t) ts) ↔
      Settled (some t) ts) :
    dropFinalBlanks (linesAfter (prev.map Token.again) (t :: us)) =
        dropFinalBlanks (linesAfter prev (t :: ts)) ↔ Settled prev (t :: ts) := by
  rw [dropFinalBlanks_linesAfter_inj Iff.rfl fun h => hblank (Token.line_eq_nil_iff.1 h), ih,
    Settled, hagain, hwants]
  simp [hsteady]

theorem text_lineToken_ne_nil {d : Nat} {l : List Char} (h : IsCode l) :
    (lineToken d l).text ≠ [] := by
  intro ht
  have hink := ink_lineToken d l
  rw [ht] at hink
  exact trim_ne_nil_iff_ink.1 h.nonblank hink.symm

theorem again_ne {prev prev' : Option Token} {t u : Token} {ts us : List Token}
    (ht : t.text ≠ []) (hu : u.text ≠ []) (h : u.line ≠ t.line) :
    dropFinalBlanks (linesAfter prev' (u :: us)) ≠ dropFinalBlanks (linesAfter prev (t :: ts)) := by
  have hline : u.line = [] ↔ t.line = [] := by
    rw [Token.line_eq_nil_iff, Token.line_eq_nil_iff]
    simp [ht, hu]
  have hblank : u.line = [] → blankBetween prev' u = blankBetween prev t :=
    fun h => absurd (Token.line_eq_nil_iff.1 h) hu
  rw [ne_eq, dropFinalBlanks_linesAfter_inj hline hblank]
  exact fun he => h he.2.1

section
variable {d : Nat} {l : List Char} {prev : Option Token} {ts us : List Token}

theorem again_split (hcode : IsCode l) (hc : isComment (trim (lineToken d l).text) = false)
    (hs : statementAndCloser? (trim (lineToken d l).text) ≠ none)
    (hu : Reads d false (linesAfter prev (lineToken d l :: ts)) us) :
    dropFinalBlanks (linesAfter (prev.map Token.again) us) ≠
      dropFinalBlanks (linesAfter prev (lineToken d l :: ts)) := by
  obtain ⟨⟨statement, closer⟩, hs⟩ := Option.ne_none_iff_exists'.1 hs
  obtain ⟨g, hg, he, -, -, -, hcl⟩ := statementAndCloser?_eq_some_iff.1 hs
  rw [← Token.trim_line] at hc hs
  obtain ⟨-, hstatement, htc, hclose⟩ := isCode_of_split hc hs
  obtain ⟨us', hus⟩ := exists_reads ((lineToken d statement).next - 1) false
    (linesAfter (some (lineToken d l)) ts)
  have hfollows : ∀ r, ¬ BraceFollows (closer :: r) := by
    intro r hf
    rcases closer_cases hcl with rfl | rfl <;> simp [BraceFollows, htc] at hf
  have hread : Reads d false (linesAfter prev (lineToken d l :: ts)) _ :=
    reads_linesAfter_cons (by simp) (.split hc hs
      (.line hstatement (fun _ => hfollows _) (.close (htc.symm ▸ hclose) hus)))
  have hdiff : (lineToken d statement).line ≠ (lineToken d l).line := by
    intro heq
    have hink := congrArg ink heq
    rw [ink_line, ink_lineToken, ink_line, ← ink_trim (lineToken d l).text, he, ink_append,
      ink_append, ink_blank hg, List.nil_append] at hink
    rcases closer_cases hcl with rfl | rfl <;> simp [ink, isBlank] at hink
  rw [hu.unique hread]
  exact again_ne (text_lineToken_ne_nil hcode) (text_lineToken_ne_nil hstatement) hdiff

/-- A line of the output that takes a brace from below is not in its final form. -/
theorem again_braced (hcode : IsCode l) (hline : IsCode (lineToken d l).line)
    (hw : (lineToken d (lineToken d l).text).wantsBrace)
    (hb : BraceFollows (linesAfter (some (lineToken d l)) ts))
    (hu : Reads d false (linesAfter prev (lineToken d l :: ts)) us) :
    dropFinalBlanks (linesAfter (prev.map Token.again) us) ≠
      dropFinalBlanks (linesAfter prev (lineToken d l :: ts)) := by
  have htoken := lineToken_line d (lineToken d l)
  obtain ⟨gap, brace, rest, hls, hgap, hbr⟩ := braceFollows_iff.1 hb
  obtain ⟨us', hus⟩ := exists_reads (lineToken d (lineToken d l).text).braced.next false rest
  have hread : Reads d false (linesAfter prev (lineToken d l :: ts))
      ((lineToken d (lineToken d l).line).braced :: us') := by
    refine reads_linesAfter_cons (by simp) ?_
    rw [hls]
    exact .braced hline (htoken.symm ▸ hw) hgap hbr (htoken.symm ▸ hus)
  have hdiff : (lineToken d (lineToken d l).line).braced.line ≠ (lineToken d l).line := by
    intro heq
    have hink := congrArg ink heq
    rw [ink_line, ink_braced, ink_lineToken] at hink
    simp at hink
  rw [hu.unique hread]
  refine again_ne (text_lineToken_ne_nil hcode) ?_ hdiff
  rw [Token.braced]
  simp

/-- A line of the output that stays one line is in its final form if its spacing is, and if the
blank lines around it are the same. -/
theorem again_whole (hcode : IsCode l) (hline : IsCode (lineToken d l).line)
    (hb : ¬ ((lineToken d (lineToken d l).text).wantsBrace ∧
      BraceFollows (linesAfter (some (lineToken d l)) ts)))
    (ih : ∀ {us : List Token},
      Reads (lineToken d l).next false (linesAfter (some (lineToken d l)) ts) us →
        (dropFinalBlanks (linesAfter (some (lineToken d (lineToken d l).text)) us) =
            dropFinalBlanks (linesAfter (some (lineToken d l)) ts) ↔
          Settled (some (lineToken d l)) ts))
    (hu : Reads d false (linesAfter prev (lineToken d l :: ts)) us) :
    dropFinalBlanks (linesAfter (prev.map Token.again) us) =
        dropFinalBlanks (linesAfter prev (lineToken d l :: ts)) ↔
      (lineToken d (lineToken d l).text).text = (lineToken d l).text ∧
        blankBetween (prev.map Token.again) (lineToken d (lineToken d l).text) =
          blankBetween prev (lineToken d l) ∧ Settled (some (lineToken d l)) ts := by
  have htoken := lineToken_line d (lineToken d l)
  have hne := text_lineToken_ne_nil (d := d) hcode
  have hne' : (lineToken d (lineToken d l).text).text ≠ [] := by
    rw [← htoken]
    exact text_lineToken_ne_nil hline
  obtain ⟨us', hus⟩ := exists_reads (lineToken d (lineToken d l).text).next false
    (linesAfter (some (lineToken d l)) ts)
  have hread : Reads d false (linesAfter prev (lineToken d l :: ts))
      (lineToken d (lineToken d l).text :: us') := by
    refine reads_linesAfter_cons (by simp) ?_
    have hfollows : (lineToken d (lineToken d l).line).wantsBrace →
        ¬ BraceFollows (linesAfter (some (lineToken d l)) ts) := fun hw hf => hb ⟨htoken ▸ hw, hf⟩
    rw [← htoken] at hus ⊢
    exact .line hline hfollows hus
  have hinj := Token.line_inj (t := lineToken d (lineToken d l).text) (u := lineToken d l) rfl
    hne' hne
  rw [hu.unique hread]
  by_cases hsame : (lineToken d (lineToken d l).text).text = (lineToken d l).text
  case neg =>
      exact iff_of_false (again_ne hne hne' fun h => hsame (hinj.1 h)) fun h => hsame h.1
  case pos =>
      rw [next_again hsame] at hus
      rw [dropFinalBlanks_linesAfter_inj (by rw [hinj.2 hsame])
        fun h => absurd (Token.line_eq_nil_iff.1 h) hne', hinj, ih hus]
      simp only [hsame, true_and]

/-- A line of code is in its final form or not by how its line in the output is read. -/
theorem again_line {ls : List (List Char)} (hcode : IsCode l)
    (h : Reads (lineToken d l).next false ls ts)
    (ih : ∀ {us : List Token},
      Reads (lineToken d l).next false (linesAfter (some (lineToken d l)) ts) us →
        (dropFinalBlanks (linesAfter (some (lineToken d l).again) us) =
            dropFinalBlanks (linesAfter (some (lineToken d l)) ts) ↔
          Settled (some (lineToken d l)) ts))
    (hu : Reads d false (linesAfter prev (lineToken d l :: ts)) us) :
    dropFinalBlanks (linesAfter (prev.map Token.again) us) =
      dropFinalBlanks (linesAfter prev (lineToken d l :: ts)) ↔
        Settled prev (lineToken d l :: ts) := by
  rw [again_lineToken] at ih
  by_cases hw : isComment (trim (lineToken d l).text) ∨
      statementAndCloser? (trim (lineToken d l).text) = none
  case neg =>
      have hnot : ¬ Settled prev (lineToken d l :: ts) := fun hs =>
        hw (steady_lineToken.1 hs.1).1
      rw [not_or, Bool.not_eq_true] at hw
      exact iff_of_false (again_split hcode hw.1 hw.2 hu) hnot
  case pos =>
      have hline := isCode_line hcode hw
      have hfollows := braceFollows_linesAfter h (some (lineToken d l))
      rw [Settled, steady_lineToken, again_lineToken, ← hfollows]
      by_cases hb : (lineToken d (lineToken d l).text).wantsBrace ∧
          BraceFollows (linesAfter (some (lineToken d l)) ts)
      case pos =>
          exact iff_of_false (again_braced hcode hline hb.1 hb.2 hu) fun hs => hs.2.2.1 hb
      case neg =>
          rw [again_whole hcode hline hb ih hu]
          simp only [hw, hb, not_false_eq_true, true_and]

end

theorem Reads.again_block {d : Nat} {b : Bool} {l : List Char} {prev : Option Token}
    {ts us : List Token} (hb : b || opensBlock (trim l))
    (hp : b → prev.any (·.category = .comment))
    (h : Reads d (blockAfter b (trim l)) (linesAfter (some ⟨trim l, d, .comment⟩) ts) us) :
    Reads d b (linesAfter prev (⟨trim l, d, .comment⟩ :: ts)) (⟨trim l, d, .comment⟩ :: us) := by
  have htrim := Token.trim_line_trim l d .comment
  refine reads_linesAfter_cons (fun hb => blankBetween_comment (hp hb) rfl) ?_
  have := Reads.block (l := Token.line ⟨trim l, d, .comment⟩) (htrim.symm ▸ hb) (htrim.symm ▸ h)
  rwa [htrim] at this

theorem Reads.again_close {d : Nat} {l : List Char} {prev : Option Token} {ts us : List Token}
    (hc : isClosingLine (trim l))
    (h : Reads (d - 1) false (linesAfter (some ⟨trim l, d - 1, .close⟩) ts) us) :
    Reads d false (linesAfter prev (⟨trim l, d - 1, .close⟩ :: ts))
      (⟨trim l, d - 1, .close⟩ :: us) := by
  have htrim := Token.trim_line_trim l (d - 1) .close
  refine reads_linesAfter_cons (by simp) ?_
  have := Reads.close (l := Token.line ⟨trim l, d - 1, .close⟩) (htrim.symm ▸ hc) h
  rwa [htrim] at this

theorem Reads.again_opener {d : Nat} {l : List Char} {prev : Option Token} {ts us : List Token}
    (hw : (lineToken d l).wantsBrace)
    (h : Reads (lineToken d l).braced.next false (linesAfter (some (lineToken d l).braced) ts) us) :
    Reads d false (linesAfter prev ((lineToken d l).braced :: ts))
      ((lineToken d l).braced :: us) := by
  have htoken : lineToken d (lineToken d l).braced.line = (lineToken d l).braced := by
    rw [lineToken_line, lineToken_braced hw]
  have hlone : (lineToken d (lineToken d l).braced.line).wantsBrace →
      ¬ BraceFollows (linesAfter (some (lineToken d l).braced) ts) := by
    rw [htoken, wantsBrace_braced]
    simp
  have hnext : Reads (lineToken d (lineToken d l).braced.line).next false
      (linesAfter (some (lineToken d l).braced) ts) us := by
    rw [htoken]
    exact h
  refine reads_linesAfter_cons (by simp) ?_
  have := Reads.line (isCode_braced hw).1 hlone hnext
  rwa [htoken] at this

/-- The output is formatted to itself from some token on if and only if the tokens from there on
are settled. -/
theorem Reads.again_iff {d : Nat} {b : Bool} {ls : List (List Char)} {ts : List Token}
    (h : Reads d b ls ts) {prev : Option Token} (hp : b → prev.any (·.category = .comment))
    {us : List Token} (hu : Reads d b (linesAfter prev ts) us) :
    dropFinalBlanks (linesAfter (prev.map Token.again) us) =
      dropFinalBlanks (linesAfter prev ts) ↔ Settled prev ts := by
  induction h generalizing prev us with
  | done =>
      rw [hu.unique .done]
      simp [Settled]
  | blank _ _ ih => exact ih hp hu
  | split _ _ _ ih => exact ih (by simp) hu
  | @block d b l ls ts hb h ih =>
      obtain ⟨us', hus⟩ := exists_reads d (blockAfter b (trim l))
        (linesAfter (some ⟨trim l, d, .comment⟩) ts)
      rw [hu.unique (.again_block hb hp hus)]
      refine again_step rfl (.inl rfl) rfl (fun ht => ?_) (ih (fun _ => rfl) hus)
      have hb : b := by
        rw [show trim l = [] from ht] at hb
        simpa [opensBlock, startsWith, after?] using hb
      rw [again_of_comment (hp hb)]
  | @close d l ls ts hc h ih =>
      obtain ⟨us', hus⟩ := exists_reads (d - 1) false
        (linesAfter (some ⟨trim l, d - 1, .close⟩) ts)
      rw [hu.unique (.again_close hc hus)]
      refine again_step rfl (.inr (.inl rfl)) rfl (fun ht => ?_) (ih (by simp) hus)
      rw [show trim l = [] from ht] at hc
      cases hc
  | @line d l ls ts hcode hbrace h ih =>
      exact again_line hcode h (fun hus => ih (by simp) hus) hu
  | @braced d l brace gap ls ts hcode hw hgap hbr h ih =>
      obtain ⟨us', hus⟩ := exists_reads (lineToken d l).braced.next false
        (linesAfter (some (lineToken d l).braced) ts)
      have hagain := braced_again hw
      have hih := ih (by simp) hus
      rw [Option.map_some, hagain] at hih
      rw [hu.unique (.again_opener hw hus)]
      refine again_step hagain (.inr (.inr ⟨.inr (isCode_braced hw).2, by rw [hagain]⟩))
        (wantsBrace_braced _) (fun ht => ?_) hih
      rw [Token.braced] at ht
      simp at ht

end SchemaLint.Layout
