import SchemaLint.Proofs.Document.Scan
import SchemaLint.Proofs.Line.Heading
import SchemaLint.Proofs.Structure.Joints

/-! Headings in the structural scan. With a brace a heading opens its block; without one it waits,
past blank lines, for the brace below. Either way the line has the same faults. -/

namespace SchemaLint.Structure
open SchemaLint.Text SchemaLint.Line

variable {s : State} {n : Nat} (h : Heading) {t : List Char} (ht : HeadingTail t)

/-- What the members' check finds in a heading, by the block that it stands in. -/
def headingCauses : Option BlockKind → List Cause
  | some .message | some .oneof => if h.kind = .service then [.fieldLacksNumber] else []
  | some .enum => [.valueLacksNumber]
  | _ => []

/-- The faults of a heading: an opener that still waits goes without its brace. -/
def headingFaults (s : State) (n : Nat) : List Fault :=
  (headingCauses h s.context).map (fun cause => { line := n, cause }) ++
    s.pending.toList.map Block.lacksBrace

theorem settle_heading (t : List Char) :
    settle s (h.text ++ t) =
      { stack := s.stack, faults := s.pending.toList.map Block.lacksBrace } := by
  have hhead : (h.text ++ t).head? ≠ some '{' :=
    head?_ne_of_firstWord (h.firstWord_ne_nil t) (by decide)
  unfold settle
  cases s.pending with
  | none => rfl
  | some block => exact if_neg hhead

include ht

theorem fieldCauses_heading :
    fieldCauses (h.text ++ t) = if h.kind = .service then [.fieldLacksNumber] else [] := by
  split
  case isTrue hk =>
      have hnested : isNestedDefinition (h.text ++ t) = false := by
        have hword : (h.text ++ t).takeWhile isWord = "service".toList :=
          (h.firstWord t).trans (by rw [hk]; rfl)
        rw [isNestedDefinition, hword]
        decide
      have hshaped : isFieldShaped (h.text ++ t) := by
        rw [isFieldShaped, h.typedName?_eq ht]
        exact Bool.or_true _
      have hfield : isField (h.text ++ t) := by
        rw [isField, isCloser_of_word (h.startsWord t), hnested, hshaped]
        rfl
      have hterminated : hasTerminatedNumber (h.text ++ t) = false :=
        Bool.eq_false_iff.2 fun hn =>
          h.no_equals ht (Document.mem_of_hasTerminatedNumber hn).1
      have hunterminated : hasUnterminatedNumber (h.text ++ t) = false :=
        Bool.eq_false_iff.2 fun hn => h.no_equals ht (Document.mem_of_hasUnterminatedNumber hn)
      rw [fieldCauses, hfield, hterminated, hunterminated]
      rfl
  case isFalse hk =>
      have hnested : ∀ kind ∈ [BlockKind.message, .enum, .service], kind ≠ .service →
          kind.word ∈ ["message", "enum", "oneof", "extend", "reserved", "option",
            "extensions"] := by
        decide
      exact fieldCauses_of_not_field (isField_of_nested (h.firstWord t) (hnested _ h.block hk))

theorem valueCauses_heading : valueCauses (h.text ++ t) = [.valueLacksNumber] := by
  obtain ⟨a, ha, hw⟩ := h.startsWord t
  have hoption : startsWith "option ".toList (h.text ++ t) = false :=
    startsWith_spaced_eq_false "option".toList (by decide) (h.firstWord_ne (by decide) t)
  have hreserved : startsWith "reserved ".toList (h.text ++ t) = false :=
    startsWith_spaced_eq_false "reserved".toList (by decide) (h.firstWord_ne (by decide) t)
  have hvalue : isEnumValue (h.text ++ t) := by
    rw [isEnumValue, isCloser_of_word (h.startsWord t), hoption, hreserved, ha]
    exact hw
  have hnone := Document.assignment?_of_no_equals (h.no_equals ht)
  rw [valueCauses, hvalue, isTerminatedValue, isUnterminatedValue, hnone]
  rfl

theorem memberCauses_heading (context : Option BlockKind) :
    memberCauses context (h.text ++ t) = headingCauses h context := by
  rcases context with _ | kind
  · rfl
  · cases kind with
    | message => exact fieldCauses_heading h ht
    | oneof => exact fieldCauses_heading h ht
    | enum => exact valueCauses_heading h ht
    | service => rfl
    | plain => rfl

theorem opener?_heading : opener? (h.text ++ t) = some ⟨h.kind, h.name, t⟩ := by
  have hsplit : h.text ++ t = h.kind.word.toList ++ ([' '] ++ (h.name ++ t)) := h.text_append t
  exact ((opener?_named_iff (o := ⟨h.kind, h.name, t⟩)).2
    ⟨h.declared, h.ne_nil, h.word, ht.head, [' '], by simp, by decide, hsplit⟩).1

/-- Whatever a heading does with blocks, its line has the same faults. -/
theorem scanCode_heading {b : Blocks} (hb : blocks s n (h.text ++ t) = b)
    (hfaults : b.faults = s.pending.toList.map Block.lacksBrace) (i : Nat) :
    scanCode s n i (h.text ++ t) =
      ({ s with stack := b.stack, pending := b.pending }, headingFaults h s n) := by
  have htop : ∀ kind ∈ [BlockKind.message, .enum, .service], kind.word ∈ ["syntax", "package",
      "import", "option", "message", "enum", "service", "extend"] := by
    decide
  have htop : isTopLevel (h.text ++ t) := by
    rw [h.text_append]
    exact isTopLevel_keyword (htop _ h.block) _
  have hstatement : ∀ k ∈ ["syntax", "package", "import", "option"],
      ∀ kind ∈ [BlockKind.message, .enum, .service], k.toList ≠ kind.word.toList := by
    decide
  have hkeyword : afterKeyword? ["syntax", "package", "import", "option"] (h.text ++ t) = none :=
    afterKeyword?_eq_none (by decide) fun k hk => h.firstWord_ne (hstatement k hk) t
  have hsemicolon : semicolonFaults n i (h.text ++ t) = [] := by
    rw [semicolonFaults, Line.lacksSemicolon, hkeyword]
    rfl
  rw [scanCode, hb, hfaults, memberCauses_heading h ht,
    rpcCauses_of_firstWord _ (h.firstWord_ne (by decide) t),
    syntaxCauses_of_firstWord (h.firstWord_ne (by decide) t),
    trailingFaults_of_no_semicolon n i (h.not_mem ht (by decide) (by decide)),
    topLevelCauses_of_isTopLevel _ htop, hsemicolon]
  simp only [headingFaults, List.map_nil, List.append_nil]

omit ht

theorem step_heading {raw : List Char} (hs : s.inComment = false) (hr : trim raw = h.text) :
    step s (raw, n) = ({ s with pending := some ⟨h.kind, h.name, n⟩ }, headingFaults h s n) := by
  have hbare : h.text = h.text ++ [] := (List.append_nil _).symm
  have hopen : '{' ∉ h.text := h.not_mem_text (by decide)
  have hblocks : blocks s n (h.text ++ []) =
      { stack := s.stack, pending := some ⟨h.kind, h.name, n⟩,
        faults := s.pending.toList.map Block.lacksBrace } := by
    rw [blocks, settle_heading,
      declare_of_end (opener?_heading h .bare) h.ne_nil trim_nil (hbare ▸ hopen)]
    refine balance_settled ?_ (h.not_mem .bare (by decide) (by decide))
    rw [← hbare, List.count_eq_zero.2 hopen]
    exact Nat.zero_le _
  rw [Document.step_word n hs (hr.trans hbare) (h.firstWord_ne_nil []) (h.remark .bare)]
  exact scanCode_heading h .bare hblocks rfl _

theorem step_braced {raw g : List Char} (hs : s.inComment = false) (hg : Blank g)
    (hr : trim raw = h.text ++ (g ++ ['{'])) :
    step s (raw, n) =
      ({ s with stack := ⟨h.kind, h.name, n⟩ :: s.stack, pending := none },
        headingFaults h s n) := by
  have htail := HeadingTail.brace hg
  have hopen : '{' ∉ h.text := h.not_mem_text (by decide)
  have hcount : (h.text ++ (g ++ ['{'])).count '{' = 1 := by
    rw [List.count_append, List.count_eq_zero.2 hopen, count_brace hg]
  have hblocks : blocks s n (h.text ++ (g ++ ['{'])) =
      { stack := ⟨h.kind, h.name, n⟩ :: s.stack, claimed := true,
        faults := s.pending.toList.map Block.lacksBrace } := by
    rw [blocks, settle_heading, declare_of_brace (opener?_heading h htail) h.ne_nil (by simp)]
    exact balance_settled (Nat.le_of_eq hcount) (h.not_mem htail (by decide) (by decide))
  rw [Document.step_word n hs hr (h.firstWord_ne_nil _) (h.remark htail)]
  exact scanCode_heading h htail hblocks rfl _

theorem step_brace {raw : List Char} {b : Block} (hs : s.inComment = false)
    (hp : s.pending = some b) (hr : trim raw = ['{']) :
    step s (raw, n) = ({ s with stack := b :: s.stack, pending := none }, []) := by
  have hblocks : blocks s n ['{'] = { stack := b :: s.stack, claimed := true } := by
    have hsettle : settle s ['{'] = { stack := b :: s.stack, claimed := true } := by
      rw [settle, hp]
      rfl
    have hnone : opener? ['{'] = none := opener?_of_brace rfl
    rw [blocks, hsettle, declare_of_none hnone]
    exact balance_settled (Nat.le_refl 1) (by decide)
  have hmember : ∀ context, memberCauses context ['{'] = [] := by
    intro context
    rcases context with _ | kind
    · rfl
    · cases kind <;> rfl
  have hsemicolon : ∀ i, semicolonFaults n i ['{'] = [] := fun i =>
    semicolonFaults_of_mem n i (.inr (by decide))
  rw [Document.step_code n hs hr (by decide) (by decide) (by decide), scanCode, hblocks, hmember,
    rpcCauses_of_firstWord _ (by decide), syntaxCauses_of_firstWord (by decide),
    trailingFaults_of_brace n _ (by decide), topLevelCauses_of_isTopLevel _ (by decide), hsemicolon]
  rfl

theorem scan_blanks {gap : List (List Char)} (hgap : ∀ k ∈ gap, trim k = []) (s : State) (n : Nat) :
    scan s (gap.zipIdx n) = (s, []) := by
  induction gap generalizing n with
  | nil => rfl
  | cons k gap ih =>
      obtain ⟨hk, hgap⟩ := List.forall_mem_cons.1 hgap
      rw [scan_cons, step_blank hk, ih hgap]
      rfl

/-- A heading with its brace is scanned like one with its brace below. -/
theorem scan_lowers {l : List Char} {low : List (List Char)} (hlow : Lowers l low)
    (hs : s.inComment = false) (n : Nat) : scan s (low.zipIdx n) = scan s ([l].zipIdx n) := by
  obtain ⟨h, hg, hl, hhead, hgap, hbrace⟩ := hlow
  -- the heading waits through the gap and opens its block with its own line, not the brace's
  have hwaits : State.inComment { s with pending := some ⟨h.kind, h.name, n⟩ } = false := hs
  rw [scan_cons, step_heading h hs hhead, scan_append, scan_blanks hgap, scan_cons,
    step_brace hwaits rfl hbrace, scan_cons, step_braced h hs hg hl]
  rfl

end SchemaLint.Structure
