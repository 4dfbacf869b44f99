import SchemaLint.Proofs.Layout.Lexemes
import SchemaLint.Proofs.Layout.Rereading

/-! Reading a source line by line for comments and code, and what of it the output yields. The
lines of block comments stay what they are, and each other line yields what the lines yield that
it becomes. -/

namespace SchemaLint.Layout
open SchemaLint.Text SchemaLint.Line

/-- What the lines yield, from inside a block comment or outside: the ones in block comments by one
rule and all others by another. -/
def collect {β : Type} (comment code : List Char → List β) :
    Bool → List (List Char) → List β
  | _, [] => []
  | inBlock, l :: ls =>
    (if inBlock || opensBlock (trim l) then comment (trim l) else code (trim l)) ++
      collect comment code (blockAfter inBlock (trim l)) ls

def codeLines (x : List Char) : List (List Char) :=
  collect (fun _ => []) (fun t => [t]) false (Source.lines x)

/-- The lines that a trimmed line outside block comments becomes, without their indentation. -/
def outputs (t : List Char) : List (List Char) :=
  if t = [] then []
  else if isClosingLine t then [t]
  else if isComment t then [spaced t]
  else match statementAndCloser? t with
    | some (statement, closer) => [spaced statement, closer]
    | none => [spaced t]

/-- How a trimmed line outside block comments goes over into lines of the output. -/
inductive Becomes (t : List Char) : List (List Char) → Prop
  | blank : t = [] → Becomes t []
  | close : isClosingLine t → Becomes t [t]
  | whole : isClosingLine t = false → isComment t ∨ statementAndCloser? t = none →
      Becomes t [spaced t]
  | split {statement closer : List Char} : isClosingLine t = false → isComment t = false →
      statementAndCloser? t = some (statement, closer) → Becomes t [spaced statement, closer]

theorem becomes (t : List Char) : Becomes t (outputs t) := by
  unfold outputs
  split
  case isTrue hn => exact .blank hn
  case isFalse =>
      split
      case isTrue hclose => exact .close hclose
      case isFalse hclose =>
          have hclose := eq_false_of_ne_true hclose
          split
          case isTrue hc => exact .whole hclose (.inl hc)
          case isFalse hc =>
              split
              case h_1 hs => exact .split hclose (eq_false_of_ne_true hc) hs
              case h_2 hs => exact .whole hclose (.inr hs)

theorem spaced_of_closing {t : List Char} (ht : trim t = t) (h : isClosingLine t) :
    spaced t = t := by
  obtain ⟨s, rfl⟩ := isClosingLine_head h
  exact ht

theorem remark_of_wantsBrace {t : Token} (h : t.wantsBrace) : remark t.text = [] :=
  remark_eq_nil_iff.2 (Token.wantsBrace_iff.1 h).2.2

theorem wantsBrace_head {d : Nat} {l : List Char} (h : (lineToken d l).wantsBrace) :
    ∃ c, (lineToken d l).text.head? = some c ∧ isWord c := by
  have hs := spelled_readLine (trim l)
  rw [show (readLine (trim l)).1 = .block from (Token.wantsBrace_iff.1 h).1] at hs
  exact hs.block_head

/-- An opener that waits for its brace is not split once it is spaced, since it was not before. -/
theorem statementAndCloser?_of_wantsBrace {d : Nat} {l : List Char} (h : IsCode l)
    (hw : (lineToken d l).wantsBrace) :
    statementAndCloser? (trim (lineToken d l).text) = none := by
  obtain ⟨keyword, hk, g, rest, hn, hg, hrest, -, hends, he, ht⟩ := wantsBrace_text hw
  have hkeyword := startsWord_of_lineKeyword (mem_lineKeywords_of_block hk)
  have hword := (word_of_lineKeyword keyword (mem_lineKeywords_of_block hk)).2
  have hlead : ∀ g, Blank g → ∀ c ∈ keyword.toList ++ g, isWord c ∨ isBlank c :=
    fun g hg c hc => (List.mem_append.1 hc).imp (hword c) (hg c)
  obtain ⟨c, hc, hcw⟩ := hkeyword.of_isPrefix (List.prefix_append _ (g ++ rest))
  have hcomment : ¬ isComment (trim l) := by
    rw [he, isComment_of_word hc hcw]
    exact Bool.false_ne_true
  have hnone := h.whole.resolve_left hcomment
  rw [he, ← List.append_assoc, statementAndCloser?_append_eq_none_iff (hlead g hg)] at hnone
  rw [ht, trim_spaceKeyword hkeyword hrest hends, spaceKeyword, List.append_cons,
    statementAndCloser?_append_eq_none_iff (hlead [' '] (by decide))]
  exact hnone

section collect
variable {β : Type} {comment code : List Char → List β}

@[simp] theorem collect_nil (b : Bool) : collect comment code b [] = [] := rfl

theorem collect_block {b : Bool} {l : List Char} (h : b || opensBlock (trim l))
    (ls : List (List Char)) : collect comment code b (l :: ls) =
      comment (trim l) ++ collect comment code (blockAfter b (trim l)) ls := by
  rw [collect, if_pos h]

theorem collect_code {l : List Char} (h : opensBlock (trim l) = false) (ls : List (List Char)) :
    collect comment code false (l :: ls) = code (trim l) ++ collect comment code false ls := by
  rw [collect, blockAfter, h]
  rfl

theorem collect_blank (hnil : code [] = []) {l : List Char} (hl : trim l = [])
    (ls : List (List Char)) :
    collect comment code false (l :: ls) = collect comment code false ls := by
  rw [collect_code (by rw [hl]; rfl), hl, hnil, List.nil_append]

variable (comment) in
theorem collect_blanks (hnil : code [] = []) {gap : List (List Char)}
    (h : ∀ k ∈ gap, trim k = []) (ls : List (List Char)) :
    collect comment code false (gap ++ ls) = collect comment code false ls := by
  induction gap with
  | nil => rfl
  | cons l gap ih =>
      rw [List.cons_append, collect_blank hnil (h l (List.mem_cons_self ..)),
        ih fun k hk => h k (List.mem_cons_of_mem _ hk)]

variable (comment) in
/-- Blank lines at the end yield nothing, or what blank lines of a block comment yield. -/
theorem collect_append_blanks (hnil : code [] = []) (b : Bool) (ls : List (List Char)) (n : Nat) :
    ∃ m, collect comment code b (ls ++ List.replicate n []) =
      collect comment code b ls ++ (List.replicate m (comment [])).flatten := by
  induction ls generalizing b with
  | nil =>
      cases b with
      | false =>
          have hblank : ∀ k ∈ List.replicate n ([] : List Char), trim k = [] :=
            fun k hk => by rw [List.eq_of_mem_replicate hk]; rfl
          have := collect_blanks comment hnil hblank []
          exact ⟨0, by simpa using this⟩
      | true =>
          refine ⟨n, ?_⟩
          induction n with
          | zero => rfl
          | succ n ih =>
              rw [List.nil_append, collect_nil, List.nil_append] at ih ⊢
              rw [List.replicate_succ, collect_block rfl, List.replicate_succ, List.flatten_cons,
                ← ih]
              rfl
  | cons l ls ih =>
      obtain ⟨m, hm⟩ := ih (blockAfter b (trim l))
      exact ⟨m, by rw [List.cons_append, collect, collect, hm, List.append_assoc]⟩

/-- Two rules for code yield the same if they do on each line, as far as what they yield is of
the same length. -/
theorem collect_eq_iff {f g : List Char → List β} (h : ∀ t, (f t).length = (g t).length)
    (b : Bool) (ls : List (List Char)) :
    collect comment f b ls = collect comment g b ls ↔
      ∀ t ∈ collect (fun _ => []) (fun t => [t]) b ls, f t = g t := by
  induction ls generalizing b with
  | nil => simp
  | cons l ls ih =>
      rw [collect, collect, collect]
      split
      case isTrue => rw [List.append_cancel_left_eq, ih, List.nil_append]
      case isFalse =>
          rw [List.forall_mem_append, ← ih, List.forall_mem_singleton]
          exact ⟨fun he => List.append_inj he (h _), fun he => by rw [he.1, he.2]⟩

theorem length_collect {f g : List Char → List β} (h : ∀ t, (f t).length = (g t).length)
    (b : Bool) (ls : List (List Char)) :
    (collect comment f b ls).length = (collect comment g b ls).length := by
  induction ls generalizing b with
  | nil => rfl
  | cons l ls ih =>
      rw [collect, collect, List.length_append, List.length_append, ih]
      split
      · rfl
      · rw [h]

theorem collect_linesAfter_cons (hnil : code [] = []) {b : Bool} {prev : Option Token} {t : Token}
    (h : b → prev.any (·.category = .comment) ∧ t.category = .comment) (ts : List Token) :
    collect comment code b (linesAfter prev (t :: ts)) =
      collect comment code b (t.line :: linesAfter (some t) ts) := by
  rw [linesAfter_cons]
  split
  case isTrue hn =>
      cases b with
      | false => exact collect_blank hnil rfl _
      | true =>
          obtain ⟨hp, ht⟩ := h rfl
          cases prev with
          | none => cases hp
          | some p =>
              have hp : p.category = .comment := by simpa using hp
              simp [needsBlank, hp, ht, Category.isHeader] at hn
  case isFalse => rfl

theorem outputs_isCode {l : List Char} (h : IsCode l) : outputs (trim l) = [spaced (trim l)] := by
  rw [outputs, if_neg h.nonblank, if_neg (by simp [h.noClose])]
  split
  · rfl
  · rcases h.whole with hw | hw
    · contradiction
    · rw [hw]

theorem outputs_close {t : List Char} (h : isClosingLine t) : outputs t = [t] := by
  obtain ⟨r, rfl⟩ := isClosingLine_head h
  rw [outputs, if_neg (by simp), if_pos h]

theorem outputs_split {l statement closer : List Char} (hc : isComment (trim l) = false)
    (h : statementAndCloser? (trim l) = some (statement, closer)) :
    outputs (trim l) = outputs (trim statement) ++ outputs (trim closer) := by
  obtain ⟨hts, hcode, htc, hcl⟩ := isCode_of_split hc h
  have hn : trim l ≠ [] := by rintro hn; rw [hn] at h; cases h
  have hk : isClosingLine (trim l) = false := by
    by_contra hk
    obtain ⟨r, hr⟩ := isClosingLine_head (Bool.not_eq_false _ ▸ hk)
    obtain ⟨g, -, he, -, hb, hl, -⟩ := statementAndCloser?_eq_some_iff.1 h
    have hs := hcode.nonblank
    rw [hts] at hs
    obtain ⟨c, s, rfl⟩ := List.exists_cons_of_ne_nil hs
    rw [hr, List.cons_append] at he
    exact hb ((List.cons.inj he).1 ▸ List.mem_cons_self ..)
  rw [outputs_isCode hcode, htc, outputs_close hcl, outputs, if_neg hn, if_neg (by simp [hk]),
    if_neg (by simp [hc]), h, hts]
  rfl

/-- The output yields, line by line, what the lines yield that each line becomes. -/
theorem collect_linesAfter (hnil : code [] = [])
    (hbrace : ∀ s, remark s = [] → StartsWord s → statementAndCloser? (trim s) = none →
      code (trim (s ++ " \x7b".toList)) = code (trim s) ++ code ['{'])
    {d : Nat} {b : Bool} {ls : List (List Char)} {ts : List Token} (h : Reads d b ls ts)
    {prev : Option Token} (hp : b → prev.any (·.category = .comment)) :
    collect comment code b (linesAfter prev ts) =
      collect comment (fun t => (outputs t).flatMap code) b ls := by
  have hnil' : (outputs []).flatMap code = [] := rfl
  induction h generalizing prev with
  | done => rfl
  | blank hl _ ih => rw [collect_blank hnil' hl, ih hp]
  | @block d b l ls ts hb h ih =>
      have ht := Token.trim_line_trim l d .comment
      rw [collect_linesAfter_cons hnil fun hb => ⟨hp hb, rfl⟩, collect_block hb,
        collect_block (by rwa [ht]), ht, ih fun _ => rfl]
  | @close d l ls ts hc h ih =>
      obtain ⟨r, hr⟩ := isClosingLine_head hc
      have hb : opensBlock (trim l) = false := by rw [hr]; rfl
      have ht := Token.trim_line_trim l (d - 1) .close
      rw [collect_linesAfter_cons hnil (by simp), collect_code hb, collect_code (by rwa [ht]), ht,
        outputs_close hc, List.flatMap_singleton, ih (by simp)]
  | @split d l statement closer ls ts hc hs h ih =>
      obtain ⟨-, hcode, htc, hcl⟩ := isCode_of_split hc hs
      obtain ⟨r, hr⟩ := isClosingLine_head hcl
      have hb := opensBlock_of_not_isComment hc
      rw [ih (by simp), collect_code hcode.noBlock, collect_code (by rw [htc, hr]; rfl),
        collect_code hb, outputs_split hc hs, List.flatMap_append, List.append_assoc]
  | @line d l ls ts hcode _ h ih =>
      have ht : trim (lineToken d l).line = spaced (trim l) := Token.trim_line _
      have hb : opensBlock (trim (lineToken d l).line) = false := by
        rw [ht, opensBlock_spaced (trim_trim l), hcode.noBlock]
      rw [collect_linesAfter_cons hnil (by simp), collect_code hb, collect_code hcode.noBlock, ht,
        outputs_isCode hcode, List.flatMap_singleton, ih (by simp)]
  | @braced d l brace gap ls ts hcode hw hgap hbr h ih =>
      have ht : trim (lineToken d l).braced.line =
          trim ((lineToken d l).text ++ " \x7b".toList) := Token.trim_line _
      have hb : opensBlock (trim (lineToken d l).braced.line) = false := by
        obtain ⟨c, hc, hword⟩ := wantsBrace_head hw
        rw [ht]
        exact opensBlock_of_word (head?_trim (List.mem_head?_append_of_mem_head? hc) hword) hword
      have hout : outputs ['{'] = [['{']] := by decide
      rw [collect_linesAfter_cons hnil (by simp), collect_code hb, collect_code hcode.noBlock,
        collect_blanks comment hnil' hgap, collect_code (by rw [hbr]; rfl), ht,
        hbrace _ (remark_of_wantsBrace hw) (wantsBrace_head hw)
          (statementAndCloser?_of_wantsBrace hcode hw), outputs_isCode hcode, hbr, hout,
        List.flatMap_singleton, List.flatMap_singleton, List.append_assoc, ih (by simp)]
      rfl

variable (comment code) in
theorem collect_format (hnil : code [] = [])
    (hbrace : ∀ s, remark s = [] → StartsWord s → statementAndCloser? (trim s) = none →
      code (trim (s ++ " \x7b".toList)) = code (trim s) ++ code ['{']) (x : List Char) :
    ∃ out m n, collect comment code false (Source.lines (Source.format x)) =
        out ++ (List.replicate m (comment [])).flatten ∧
      collect comment (fun t => (outputs t).flatMap code) false (Source.lines x) =
        out ++ (List.replicate n (comment [])).flatten := by
  obtain ⟨ts, h⟩ := exists_reads 0 false (Source.lines x)
  obtain ⟨k, hk⟩ := exists_dropFinalBlanks (linesAfter none ts)
  obtain ⟨m, hm⟩ := collect_append_blanks comment hnil false
    (dropFinalBlanks (linesAfter none ts)) 1
  obtain ⟨n, hn⟩ := collect_append_blanks comment hnil false
    (dropFinalBlanks (linesAfter none ts)) k
  refine ⟨collect comment code false (dropFinalBlanks (linesAfter none ts)), m, n, ?_, ?_⟩
  · rw [h.lines_format, ← hm, List.replicate_one]
  · rw [← hn, ← hk, collect_linesAfter hnil hbrace h (by simp)]

theorem collect_congr {f g : List Char → List β} {b : Bool} {ls : List (List Char)}
    (h : ∀ t ∈ collect (fun _ => []) (fun t => [t]) b ls, f t = g t) :
    collect comment f b ls = collect comment g b ls := by
  induction ls generalizing b with
  | nil => rfl
  | cons l ls ih =>
      rw [collect, List.forall_mem_append] at h
      rw [collect, collect, ih h.2]
      split
      case isTrue => rfl
      case isFalse hb =>
          rw [if_neg hb, List.forall_mem_singleton] at h
          rw [h.1]

end collect

theorem collect_eq_flatMap {β : Type} (code : List Char → List β) (b : Bool)
    (ls : List (List Char)) : collect (fun _ => []) code b ls =
      (collect (fun _ => []) (fun t => [t]) b ls).flatMap code := by
  induction ls generalizing b with
  | nil => rfl
  | cons l ls ih =>
      rw [collect, collect, List.flatMap_append, ih]
      split <;> simp

theorem flatMap_filter_singleton {α : Type} (p : α → Bool) (l : List α) :
    (l.flatMap fun t => [t].filter p) = l.filter p := by
  rw [← List.filter_flatMap, List.flatMap_singleton']

theorem collect_filter (p : List Char → Bool) (b : Bool) (ls : List (List Char)) :
    collect (fun _ => []) (fun t => [t].filter p) b ls =
      (collect (fun _ => []) (fun t => [t]) b ls).filter p := by
  rw [collect_eq_flatMap, flatMap_filter_singleton]

theorem blockAfter_of_no_block {t : List Char} (h : opensBlock t = false) :
    blockAfter false t = false := by
  rw [blockAfter, h]
  rfl

theorem forall_collect_cons {p : List Char → Prop} {b : Bool} {l : List Char}
    {ls : List (List Char)} :
    (∀ t ∈ collect (fun _ => []) (fun t => [t]) b (l :: ls), p t) ↔
      ((b || opensBlock (trim l)) = false → p (trim l)) ∧
        ∀ t ∈ collect (fun _ => []) (fun t => [t]) (blockAfter b (trim l)) ls, p t := by
  rw [collect, List.forall_mem_append]
  refine and_congr_left' ?_
  split
  case isTrue h => simp [h]
  case isFalse h => simp [h]

theorem forall_collect_gap {p : List Char → Prop} {gap ls : List (List Char)}
    (hgap : ∀ k ∈ gap, trim k = [])
    (h : ∀ t ∈ collect (fun _ => []) (fun t => [t]) false (gap ++ ls), p t) :
    ∀ t ∈ collect (fun _ => []) (fun t => [t]) false ls, p t := by
  induction gap with
  | nil => exact h
  | cons l gap ih =>
      obtain ⟨hl, hgap⟩ := List.forall_mem_cons.1 hgap
      obtain ⟨-, h⟩ := forall_collect_cons.1 h
      rw [hl] at h
      exact ih hgap h

theorem exists_of_mem_collect {b : Bool} {ls : List (List Char)} {t : List Char}
    (h : t ∈ collect (fun _ => []) (fun t => [t]) b ls) : ∃ l ∈ ls, trim l = t := by
  induction ls generalizing b with
  | nil => cases h
  | cons l ls ih =>
      rw [collect, List.mem_append] at h
      rcases h with h | h
      · split at h
        · cases h
        · exact ⟨l, List.mem_cons_self .., (List.mem_singleton.1 h).symm⟩
      · obtain ⟨k, hk, he⟩ := ih h
        exact ⟨k, List.mem_cons_of_mem _ hk, he⟩

theorem trim_of_mem_codeLines {b : Bool} {ls : List (List Char)} {t : List Char}
    (h : t ∈ collect (fun _ => []) (fun t => [t]) b ls) : trim t = t := by
  obtain ⟨l, -, rfl⟩ := exists_of_mem_collect h
  exact trim_trim l

theorem no_newline_of_mem_codeLines {x t : List Char} (h : t ∈ codeLines x) : '\n' ∉ t := by
  obtain ⟨l, hl, rfl⟩ := exists_of_mem_collect h
  exact fun hm => no_newline_of_mem_lines hl (mem_of_mem_trim hm)

end SchemaLint.Layout
