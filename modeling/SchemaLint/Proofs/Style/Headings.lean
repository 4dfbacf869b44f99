import SchemaLint.Proofs.Line.CompactShapes
import SchemaLint.Proofs.Line.Heading
import SchemaLint.Proofs.Style.Checks
import SchemaLint.Proofs.Style.Renumbering

/-! Headings in the style pass. A heading declares what it names wherever its brace stands; the
brace moves the depth. -/

namespace SchemaLint.Style
open SchemaLint.Text SchemaLint.Line

variable {s : State} {n : Nat} (h : Heading) {t : List Char} (ht : HeadingTail t)

def State.deepen (s : State) (k : Nat) : State :=
  { s with depth := s.depth + k }

theorem deepen_zero (s : State) : s.deepen 0 = s := by
  rw [State.deepen, Int.natCast_zero, Int.add_zero]

def State.enter (s : State) (n : Nat) : State :=
  { s with
    openEnum :=
      if h.kind = .enum then some { name := h.name, line := n, depth := s.depth } else s.openEnum
    serviceDepth :=
      if h.kind = .service then s.serviceDepth.or (some s.depth) else s.serviceDepth
    afterComment := false }

def headingFindings (s : State) (n : Nat) : List Finding :=
  (if h.kind = .message then nameFindings isPascalCase .messageName n h.name else []) ++
    (if h.kind = .enum then nameFindings isPascalCase .enumName n h.name else []) ++
    if h.kind = .service then
      if s.afterComment then [] else [{ line := n, cause := .serviceUncommented }]
    else []

theorem noteHeader_heading (s : State) (n : Nat) (t : List Char) :
    s.noteHeader n (h.text ++ t) = s := by
  have hpackage : startsWith "package ".toList (h.text ++ t) = false :=
    startsWith_spaced_eq_false "package".toList (by decide) (h.firstWord_ne (by decide) t)
  have himport : startsWith "import ".toList (h.text ++ t) = false :=
    startsWith_spaced_eq_false "import".toList (by decide) (h.firstWord_ne (by decide) t)
  have hsyntax : startsWith "syntax".toList (h.text ++ t) = false := by
    have hcases : h.kind = .message ∨ h.kind = .enum ∨ h.kind = .service := by simpa using h.block
    rw [h.text_append]
    rcases hcases with hk | hk | hk <;> rw [hk] <;> rfl
  rw [State.noteHeader, hpackage, himport, hsyntax]
  rfl

/-- A heading of another kind is nothing to the readers for this one. -/
theorem word_ne_of_heading {kind : BlockKind} (hk : h.kind ≠ kind) (t : List Char) :
    kind.word.toList ≠ firstWord (h.text ++ t) := by
  rw [h.firstWord]
  exact fun he => hk (BlockKind.word_inj he).symm

include ht

theorem run_brace_tail (s : State) :
    Pass.run State.brace s t = (s.deepen (t.count '{'), []) := by
  cases ht with
  | bare => exact congrArg (Prod.mk · []) (deepen_zero s).symm
  | @brace g hg =>
      have hopen : '{' ∉ g := hg.not_mem (by decide)
      have hclose : '}' ∉ g := hg.not_mem (by decide)
      rw [Pass.run_append, run_brace_quiet s hopen hclose, count_brace hg]
      rfl

theorem messageFindings_heading :
    messageFindings n (h.text ++ t) =
      if h.kind = .message then nameFindings isPascalCase .messageName n h.name else [] := by
  have hname := h.declaredName?_eq ht
  by_cases hk : h.kind = .message
  · rw [hk] at hname
    rw [if_pos hk, messageFindings_of_name hname]
  · have hother : "message".toList ≠ firstWord (h.text ++ t) := word_ne_of_heading h hk t
    rw [if_neg hk, messageFindings_of_firstWord hother]

theorem readEnum_heading (s : State) (hcode : code (h.text ++ t) = h.text ++ t) :
    s.readEnum n (h.text ++ t) =
      ({ s with
          openEnum :=
            if h.kind = .enum then some { name := h.name, line := n, depth := s.depth }
            else s.openEnum },
        if h.kind = .enum then nameFindings isPascalCase .enumName n h.name else []) := by
  have hname := h.declaredName?_eq ht
  have hopen : '{' ∉ h.text := h.not_mem_text (by decide)
  by_cases hk : h.kind = .enum
  · rw [hk] at hname
    rw [if_pos hk, if_pos hk]
    -- values may follow a brace on the line; here nothing does, brace or not
    cases ht with
    | bare =>
        have hbody : until? '{' (code (h.text ++ [])) = none := by
          rw [hcode, List.append_nil]
          exact until?_eq_none_iff.2 hopen
        have hnone : declaredName? "enum" (h.text ++ []) = some h.name := hname
        rw [State.readEnum, hnone]
        dsimp only
        rw [State.openEnumAt, hbody]
        exact congrArg (Prod.mk _) (List.append_nil _)
    | @brace g hg =>
        rw [← List.append_assoc] at hcode hname ⊢
        refine readEnum_of_name s n hname hcode ?_
        rw [List.mem_append, not_or]
        exact ⟨hopen, hg.not_mem (by decide)⟩
  · have hother : "enum".toList ≠ firstWord (h.text ++ t) := word_ne_of_heading h hk t
    rw [if_neg hk, if_neg hk, readEnum_of_firstWord s n hother,
      collect_of_none n s (Document.assignment?_of_no_equals (h.no_equals ht))]

omit ht

theorem readService_heading (s : State) (t : List Char) :
    s.readService n (h.text ++ t) =
      ({ s with
          serviceDepth :=
            if h.kind = .service then s.serviceDepth.or (some s.depth) else s.serviceDepth },
        if h.kind = .service then
          if s.afterComment then [] else [{ line := n, cause := .serviceUncommented }]
        else []) := by
  by_cases hk : h.kind = .service
  · have hstart : startsWith "service ".toList (h.text ++ t) := by
      rw [h.text_append, hk]
      exact startsWith_iff.2 ⟨_, rfl⟩
    rw [if_pos hk, if_pos hk, readService_of_service s n hstart]
  · have hother : "service".toList ≠ firstWord (h.text ++ t) := word_ne_of_heading h hk t
    rw [if_neg hk, if_neg hk, readService_of_firstWord s n hother
      (h.firstWord_ne (by decide) t)]

include ht

theorem step_heading {raw : List Char} (hs : s.inComment = false) (hr : trim raw = h.text ++ t) :
    step s (raw, n) =
      ((s.enter h n).deepen (t.count '{'), lengthFindings n raw ++ headingFindings h s n) := by
  have hcode : code (h.text ++ t) = h.text ++ t := code_of_remark (hr ▸ trim_trim raw) (h.remark ht)
  have hfield : ∀ u : State, u.fieldFindings n (h.text ++ t) = [] := fun u =>
    fieldFindings_of_none u n (Document.fieldName?_of_no_equals (h.no_equals ht))
  have hbraces : ∀ u : State, Pass.run State.brace u (h.text ++ t) =
      (u.deepen (t.count '{'), []) := by
    intro u
    have hopen : '{' ∉ h.text := h.not_mem_text (by decide)
    have hclose : '}' ∉ h.text := h.not_mem_text (by decide)
    rw [Pass.run_append, run_brace_quiet u hopen hclose, run_brace_tail ht]
    rfl
  rw [step_code hs hr (isComment_of_firstWord (h.firstWord_ne_nil t)) (h.remark ht)]
  simp only [noteHeader_heading, messageFindings_heading h ht, readEnum_heading h ht s hcode,
    hfield, readService_heading, hbraces, headingFindings, List.append_nil, List.append_assoc]
  rfl

omit ht

theorem step_blank {raw : List Char} (hs : s.inComment = false) (ha : s.afterComment = false)
    (hr : trim raw = []) : step s (raw, n) = (s, lengthFindings n raw) := by
  have hbraces : s.readBraces [] = (s, []) := rfl
  have hsame : { s with afterComment := isComment [] } = s := by
    have hblank : isComment [] = false := by decide
    rw [hblank, ← ha]
  rw [step_of_no_word hs hr rfl rfl, hbraces, hsame, List.append_nil]

theorem step_brace {raw : List Char} (hs : s.inComment = false) (ha : s.afterComment = false)
    (hr : trim raw = ['{']) : step s (raw, n) = (s.deepen 1, lengthFindings n raw) := by
  have hbraces : s.readBraces ['{'] = (s.deepen 1, []) := by
    have hcode : code ['{'] = ['{'] := by decide
    rw [State.readBraces, if_neg (by decide), hcode]
    rfl
  have hsame : { s.deepen 1 with afterComment := isComment ['{'] } = s.deepen 1 := by
    have hcomment : isComment ['{'] = false := by decide
    rw [hcomment, ← ha]
    rfl
  rw [step_of_no_word hs hr (by decide) (by decide), hbraces, hsame, List.append_nil]

theorem scan_blanks {gap : List (List Char)} (hgap : ∀ k ∈ gap, trim k = [])
    (hs : s.inComment = false) (ha : s.afterComment = false) (n : Nat) :
    (scan s (gap.zipIdx n)).1 = s ∧ substance (scan s (gap.zipIdx n)).2 = [] := by
  induction gap generalizing n with
  | nil => exact ⟨rfl, rfl⟩
  | cons k gap ih =>
      obtain ⟨hk, hgap⟩ := List.forall_mem_cons.1 hgap
      obtain ⟨hstate, hfound⟩ := ih hgap (n + 1)
      rw [scan_cons, step_blank hs ha hk]
      exact ⟨hstate, by rw [substance_append, substance_length, hfound]; rfl⟩

/-- A heading with its brace leads to the state and the findings of one with its brace below. -/
theorem scan_lowers {l : List Char} {low : List (List Char)} (hlow : Lowers l low)
    (hs : s.inComment = false) (n : Nat) :
    (scan s (low.zipIdx n)).1 = (scan s ([l].zipIdx n)).1 ∧
      substance (scan s (low.zipIdx n)).2 = substance (scan s ([l].zipIdx n)).2 := by
  obtain @⟨h, head, brace, g, gap, hg, hl, hhead, hgap, hbrace⟩ := hlow
  have hin : (s.enter h n).inComment = false := hs
  have hfirst : step s (head, n) =
      (s.enter h n, lengthFindings n head ++ headingFindings h s n) := by
    rw [step_heading h .bare hs (hhead.trans (List.append_nil _).symm), List.count_nil, deepen_zero]
  obtain ⟨hstate, hfound⟩ := scan_blanks hgap hin rfl (n + 1)
  rw [scan_cons, hfirst, scan_append, hstate, scan_cons, step_brace hin rfl hbrace, scan_cons,
    step_heading h (.brace hg) hs hl, count_brace hg]
  refine ⟨rfl, ?_⟩
  simp only [substance_append, substance_length, hfound]
  rfl

end SchemaLint.Style
