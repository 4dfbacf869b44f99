import SchemaLint.Proofs.Line.FirstWord
import SchemaLint.Proofs.Line.Remark
import SchemaLint.Style.Scan

/-! The readers of the style pass one by one: what each finds on a line and what it changes. -/

namespace SchemaLint.Style
open SchemaLint.Text SchemaLint.Line

variable {s : State} {n : Nat} {text : List Char}

theorem collect_changes (n : Nat) (s : State) (text : List Char) :
    ∃ e digits, (State.collect n s text).1 = { s with openEnum := e, overlong := digits } := by
  unfold State.collect
  split
  · exact ⟨_, _, rfl⟩
  · exact ⟨s.openEnum, s.overlong, rfl⟩

theorem collectAll_changes (n : Nat) (s : State) (texts : List (List Char)) :
    ∃ e digits, (Pass.run (State.collect n) s texts).1 =
      { s with openEnum := e, overlong := digits } := by
  induction texts generalizing s with
  | nil => exact ⟨s.openEnum, s.overlong, rfl⟩
  | cons text texts ih =>
      obtain ⟨e, digits, hrest⟩ := ih (State.collect n s text).1
      obtain ⟨_, _, htext⟩ := collect_changes n s text
      rw [Pass.run_cons]
      exact ⟨e, digits, by rw [hrest, htext]⟩

/-- Enums and their values change the open enum and what is overlong. -/
theorem readEnum_changes (s : State) (n : Nat) (text : List Char) :
    ∃ e digits, (s.readEnum n text).1 = { s with openEnum := e, overlong := digits } := by
  unfold State.readEnum
  split
  · exact collectAll_changes n _ _
  · exact collect_changes n s text

theorem readService_changes (s : State) (n : Nat) (text : List Char) :
    ∃ depth, (s.readService n text).1 = { s with serviceDepth := depth } := by
  unfold State.readService
  dsimp only
  split
  · exact ⟨_, rfl⟩
  · split <;> exact ⟨s.serviceDepth, rfl⟩

theorem brace_changes (s : State) (c : Char) :
    ∃ depth service e, (s.brace c).1 =
      { s with depth := depth, serviceDepth := service, openEnum := e } := by
  unfold State.brace
  dsimp only
  split
  case isTrue => exact ⟨_, _, _, rfl⟩
  case isFalse =>
      split
      case isTrue =>
          split
          · split <;> exact ⟨_, _, _, rfl⟩
          · exact ⟨_, _, _, rfl⟩
      case isFalse => exact ⟨s.depth, s.serviceDepth, s.openEnum, rfl⟩

theorem run_brace_changes (s : State) (code : List Char) :
    ∃ depth service e, (Pass.run State.brace s code).1 =
      { s with depth := depth, serviceDepth := service, openEnum := e } := by
  induction code generalizing s with
  | nil => exact ⟨s.depth, s.serviceDepth, s.openEnum, rfl⟩
  | cons c code ih =>
      obtain ⟨depth, service, e, hrest⟩ := ih (s.brace c).1
      obtain ⟨_, _, _, hc⟩ := brace_changes s c
      rw [Pass.run_cons]
      exact ⟨depth, service, e, by rw [hrest, hc]⟩

theorem readBraces_changes (s : State) (text : List Char) :
    ∃ depth service e, (s.readBraces text).1 =
      { s with depth := depth, serviceDepth := service, openEnum := e } := by
  unfold State.readBraces
  split
  · exact ⟨s.depth, s.serviceDepth, s.openEnum, rfl⟩
  · exact run_brace_changes s _

theorem messageFindings_of_firstWord (h : "message".toList ≠ firstWord text) :
    messageFindings n text = [] := by
  rw [messageFindings, declaredName?_eq_none (by decide) h]
  rfl

theorem messageFindings_of_name {name : List Char} (h : declaredName? "message" text = some name) :
    messageFindings n text = nameFindings isPascalCase .messageName n name := by
  rw [messageFindings, h]
  rfl

theorem fieldFindings_of_open (text : List Char) (h : s.openEnum.isSome) :
    s.fieldFindings n text = [] := by
  obtain ⟨e, he⟩ := Option.isSome_iff_exists.1 h
  rw [State.fieldFindings, he]

theorem fieldFindings_of_none (s : State) (n : Nat) (h : fieldName? text = none) :
    s.fieldFindings n text = [] := by
  rw [State.fieldFindings, h]
  cases s.openEnum <;> rfl

theorem fieldFindings_of_name {name : List Char} (ho : s.openEnum = none)
    (h : fieldName? text = some name) :
    s.fieldFindings n text = nameFindings isSnakeCase .fieldName n name := by
  rw [State.fieldFindings, ho, h]

theorem readEnum_of_firstWord (s : State) (n : Nat) (h : "enum".toList ≠ firstWord text) :
    s.readEnum n text = State.collect n s text := by
  rw [State.readEnum, declaredName?_eq_none (by decide) h]

theorem collect_of_closed (n : Nat) (text : List Char) (h : s.openEnum = none) :
    State.collect n s text = (s, []) := by
  rw [State.collect, h]

theorem collect_of_none (n : Nat) (s : State) (h : assignment? text = none) :
    State.collect n s text = (s, []) := by
  rw [State.collect, h]
  cases s.openEnum <;> rfl

theorem collect_of_some {e : OpenEnum} {a : Assignment} {rest : List Char}
    (he : s.openEnum = some e) (ha : assignment? text = some (a, rest))
    (hlength : a.digits.length ≤ Numeral.maxDigits) :
    State.collect n s text =
      ({ s with
          openEnum := some { e with
            values := e.values ++
              [⟨a.name, Numeral.signed a.negative (Numeral.value a.digits), n⟩] } },
        nameFindings isUpperSnakeCase .valueName n a.name) := by
  rw [State.collect, he, ha]
  simp only [if_neg (Nat.not_lt.2 hlength), Option.or_none]

theorem readEnum_of_name (s : State) (n : Nat) {name front : List Char}
    (h : declaredName? "enum" text = some name) (hcode : code text = front ++ ['{'])
    (hfront : '{' ∉ front) :
    s.readEnum n text =
      ({ s with openEnum := some { name, line := n, depth := s.depth } },
        nameFindings isPascalCase .enumName n name) := by
  have hbody : until? '{' (code text) = some (front, []) :=
    until?_eq_some_iff.2 ⟨hfront, hcode⟩
  rw [State.readEnum, h]
  dsimp only
  rw [State.openEnumAt, hbody]
  exact congrArg (Prod.mk _) (List.append_nil _)

theorem readService_of_firstWord (s : State) (n : Nat)
    (hservice : "service".toList ≠ firstWord text) (hrpc : "rpc".toList ≠ firstWord text) :
    s.readService n text = (s, []) := by
  have hs : startsWith "service ".toList text = false :=
    startsWith_spaced_eq_false "service".toList (by decide) hservice
  have hr : startsWith "rpc ".toList text = false :=
    startsWith_spaced_eq_false "rpc".toList (by decide) hrpc
  rw [State.readService, hs, hr, Bool.and_false]
  rfl

theorem readService_of_service (s : State) (n : Nat) (h : startsWith "service ".toList text) :
    s.readService n text =
      ({ s with serviceDepth := s.serviceDepth.or (some s.depth) },
        if s.afterComment then [] else [{ line := n, cause := .serviceUncommented }]) := by
  rw [State.readService, h]
  rfl

theorem readService_of_rpc (n : Nat) (hservice : "service".toList ≠ firstWord text)
    (hopen : s.serviceDepth.isSome) (h : startsWith "rpc ".toList text) :
    s.readService n text =
      (s, if s.afterComment then [] else [{ line := n, cause := .rpcUncommented }]) := by
  have hs : startsWith "service ".toList text = false :=
    startsWith_spaced_eq_false "service".toList (by decide) hservice
  rw [State.readService, hs, hopen, h]
  rfl

theorem run_brace_quiet (s : State) {code : List Char} (hopen : '{' ∉ code) (hclose : '}' ∉ code) :
    Pass.run State.brace s code = (s, []) := by
  induction code with
  | nil => rfl
  | cons c code ih =>
      rw [List.mem_cons, not_or] at hopen hclose
      have hbrace : s.brace c = (s, []) := by
        rw [State.brace, if_neg (Ne.symm hopen.1), if_neg (Ne.symm hclose.1)]
      rw [Pass.run_cons, hbrace, ih hopen.2 hclose.2]
      rfl

theorem run_brace_opening (s : State) {front : List Char} (hopen : '{' ∉ front)
    (hclose : '}' ∉ front) :
    Pass.run State.brace s (front ++ " \x7b".toList) = ({ s with depth := s.depth + 1 }, []) := by
  rw [Pass.run_append, run_brace_quiet s hopen hclose]
  rfl

theorem readBraces_close (s : State) : s.readBraces ['}'] = s.brace '}' := by
  have hcode : code ['}'] = ['}'] := by decide
  have hcomment : isComment ['}'] = false := by decide
  rw [State.readBraces, hcomment, if_neg Bool.false_ne_true, hcode, Pass.run_cons, Pass.run_nil,
    List.append_nil]

theorem brace_close (ho : s.openEnum = none) :
    s.brace '}' =
      ({ s with depth := s.depth - 1, serviceDepth := s.serviceDepth.filter (· < s.depth - 1) },
        []) := by
  rw [State.brace, if_neg (by decide), if_pos rfl]
  simp only [ho]

theorem brace_close_enum {e : OpenEnum} (ho : s.openEnum = some e) (hd : s.depth - 1 ≤ e.depth) :
    s.brace '}' =
      ({ s with
          depth := s.depth - 1, serviceDepth := s.serviceDepth.filter (· < s.depth - 1),
          openEnum := none },
        firstValueFindings e) := by
  rw [State.brace, if_neg (by decide), if_pos rfl]
  simp only [ho, if_pos hd]

theorem step_code {raw : List Char} (hs : s.inComment = false) (ht : trim raw = text)
    (hc : isComment text = false) (hr : remark text = []) :
    step s (raw, n) =
      let s₁ := s.noteHeader n text
      let s₂ := (s₁.readEnum n text).1
      let s₃ := (s₂.readService n text).1
      let braces := Pass.run State.brace s₃ text
      ({ braces.1 with afterComment := false },
        lengthFindings n raw ++ messageFindings n text ++ (s₁.readEnum n text).2 ++
          s₂.fieldFindings n text ++ (s₂.readService n text).2 ++ braces.2) := by
  have hcode : code text = text := by
    rw [code, beforeComment_of_remark hr, ← ht, trim_trim]
  have hsame : { s with inComment := blockAfter false text } = s := by
    rw [blockAfter_of_not_isComment hc, ← hs]
  rw [step]
  simp only [hs, ht, Bool.false_eq_true, if_false, hsame, State.readBraces, hc, hcode]

/-- A line that starts with no word says nothing to any reader but the one for braces. -/
theorem step_of_no_word {raw : List Char} (hs : s.inComment = false) (ht : trim raw = text)
    (hw : firstWord text = []) (hb : blockAfter false text = false) :
    step s (raw, n) =
      ({ (s.readBraces text).1 with afterComment := isComment text },
        lengthFindings n raw ++ (s.readBraces text).2) := by
  have hsame : { s with inComment := blockAfter false text } = s := by
    rw [hb, ← hs]
  have hstart : ∀ keyword : List Char, keyword.head?.any isWord → startsWith keyword text = false :=
    fun keyword hk => startsWith_of_no_word hw hk
  have hheader : s.noteHeader n text = s := by
    rw [State.noteHeader, hstart _ (by decide), hstart _ (by decide), hstart _ (by decide)]
    rfl
  have hmessage : messageFindings n text = [] :=
    messageFindings_of_firstWord (by rw [hw]; decide)
  have henum : s.readEnum n text = (s, []) := by
    rw [readEnum_of_firstWord s n (by rw [hw]; decide)]
    exact collect_of_none n s (assignment?_of_no_word hw)
  have hservice : s.readService n text = (s, []) :=
    readService_of_firstWord s n (by rw [hw]; decide) (by rw [hw]; decide)
  have hfield : s.fieldFindings n text = [] := fieldFindings_of_none s n (fieldName?_of_no_word hw)
  rw [step]
  simp only [hs, ht, Bool.false_eq_true, if_false, hsame, hheader, hmessage, henum, hfield,
    hservice, List.append_nil]

end SchemaLint.Style
