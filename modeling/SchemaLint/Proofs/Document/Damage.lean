import SchemaLint.Proofs.Document.Scan

/-! Well-formed sources with one line damaged. Each kind of damage has its fault, wherever the line
stands: a mark or a number that is missing is found on the line, a missing brace of an opener on the
next line that is not blank, and a missing closing brace at the end, where the outermost block is
still open. -/

namespace SchemaLint.Structure
open SchemaLint.Line

variable {s : State} {b : Block} {n : Nat} {code : List Char}

theorem mem_scanCode_of_member {c : Cause} (h : c ∈ memberCauses s.context code) (indent : Nat) :
    { line := n, cause := c } ∈ (scanCode s n indent code).2 := by
  simp only [scanCode, List.append_assoc]
  exact List.mem_append_left _ (List.mem_map_of_mem h)

theorem mem_scanCode_of_blocks {f : Fault} (h : f ∈ (blocks s n code).faults) (indent : Nat) :
    f ∈ (scanCode s n indent code).2 := by
  simp only [scanCode, List.append_assoc]
  exact List.mem_append_right _ (List.mem_append_left _ h)

theorem mem_scanCode_of_rpc {c : Cause} (h : c ∈ rpcCauses s.context code) (indent : Nat) :
    { line := n, cause := c } ∈ (scanCode s n indent code).2 := by
  have hstatement : c ∈ rpcCauses s.context code ++ syntaxCauses code := List.mem_append_left _ h
  simp only [scanCode, List.append_assoc]
  exact List.mem_append_right _ (List.mem_append_right _
    (List.mem_append_left _ (List.mem_map_of_mem hstatement)))

theorem mem_scanCode_of_semicolon {f : Fault} {indent : Nat}
    (h : f ∈ semicolonFaults n indent code) : f ∈ (scanCode s n indent code).2 := by
  rw [scanCode]
  exact List.mem_append_right _ h

theorem mem_faults_declare {f : Fault} {bs : Blocks} (h : f ∈ bs.faults) :
    f ∈ (declare n code bs).faults := by
  unfold declare
  split
  · exact h
  · dsimp only
    split
    · exact List.mem_append_left _ h
    · split
      · exact List.mem_append_left _ h
      · exact List.mem_append_left _ (List.mem_append_left _ h)

/-- Any line of code that does not start with a brace leaves the opener without one. -/
theorem lacksBrace_mem_scanCode (hp : s.pending = some b) (hbrace : code.head? ≠ some '{')
    (indent : Nat) : b.lacksBrace ∈ (scanCode s n indent code).2 := by
  have hsettle : b.lacksBrace ∈ (settle s code).faults := by
    rw [settle, hp]
    simp only [if_neg hbrace, List.mem_singleton]
  apply mem_scanCode_of_blocks
  exact List.mem_append_left _ (mem_faults_declare hsettle)

end SchemaLint.Structure

namespace SchemaLint.Document
open SchemaLint.Text SchemaLint.Schema SchemaLint.Structure
open SchemaLint.Line hiding Opener

/-- What is wrong with the statement if its semicolon is missing; the text is the line. -/
inductive LacksSemicolon (line : Nat) (raw : List Char) : Leaf → Fault → Prop
  | field (f : Field) : LacksSemicolon line raw (.field f) { line, cause := .fieldLacksSemicolon }
  | value (v : Value) : LacksSemicolon line raw (.value v) { line, cause := .valueLacksSemicolon }
  | method (s : Signature) : LacksSemicolon line raw (.method s) { line, cause := .malformedRpc }
  | header {h : Header} (plain : ';' ∉ headerRest h) : LacksSemicolon line raw (.header h)
      { line, column := (trimEnd raw).length, cause := .lacksSemicolon }
  | deprecated : LacksSemicolon line raw .deprecated
      { line, column := (trimEnd raw).length, cause := .lacksSemicolon }

/-- What becomes of a line when it is damaged, and the fault that is to be found. -/
inductive Damage (line : Nat) : Row → List (List Char) → Fault → Prop
  | noClose {outer : List Block} {raw : List Char} {b : Block}
      (outermost : outer.getLast? = some b) :
      Damage line ⟨outer, .close, raw⟩ [] b.staysOpen
  | noBrace {outer : List Block} {raw : List Char} {keyword : Keyword} {name : Name}
      (left : Written (led keyword.word name.text)) :
      Damage line ⟨outer, .opener (.block keyword name), raw⟩ [left.raw]
        (opened line (.block keyword name)).lacksBrace
  | noSemicolon {outer : List Block} {raw : List Char} {l : Leaf} {f : Fault}
      (left : Written l.stem) (fault : LacksSemicolon line left.raw l f) :
      Damage line ⟨outer, .leaf l, raw⟩ [left.raw] f
  | noFieldNumber {outer : List Block} {raw gap : List Char} {f : Field} (blank : Blank gap)
      (left : Written (f.front ++ (gap ++ [';']))) :
      Damage line ⟨outer, .leaf (.field f), raw⟩ [left.raw] { line, cause := .fieldLacksNumber }
  | noValueNumber {outer : List Block} {raw gap : List Char} {v : Value} (blank : Blank gap)
      (left : Written (v.name.text ++ (gap ++ [';']))) :
      Damage line ⟨outer, .leaf (.value v), raw⟩ [left.raw] { line, cause := .valueLacksNumber }

/-- The code of a line ends where the line does, but for white space. -/
theorem length_trimEnd {raw text : List Char} (ht : trim raw = text) (hn : text ≠ []) :
    (trimEnd raw).length = (raw.takeWhile isBlank).length + text.length := by
  have hblank : ¬ Blank (trimStart raw) := by
    intro hb
    refine hn ?_
    rw [← ht, trim, trimEnd_eq_nil_iff.2 hb]
  have hraw : raw = raw.takeWhile isBlank ++ trimStart raw := List.takeWhile_append_dropWhile.symm
  have htrim : trimEnd raw = raw.takeWhile isBlank ++ text := by
    conv_lhs => rw [hraw, trimEnd_append_of_not_blank _ hblank]
    rw [← ht, trim]
  rw [htrim, List.length_append]

theorem Holds.field_member {place : Place} {f : Field} (h : Holds place (.field f))
    (code : List Char) : Structure.memberCauses place.kind? code = fieldCauses code := by
  cases h <;> rfl

theorem Holds.value_member {place : Place} {v : Value} (h : Holds place (.value v))
    (code : List Char) : Structure.memberCauses place.kind? code = valueCauses code := by
  cases h
  rfl

theorem fieldCauses_of_no_semicolon (f : Field) :
    fieldCauses (Leaf.field f).stem = [.fieldLacksSemicolon] := by
  have hmark : ∀ c, isTerm c = false → c ∉ [' ', '=', ' '] → c ∉ (Leaf.field f).stem := by
    intro c hc hm
    have hstem : (Leaf.field f).stem = f.front ++ ([' ', '=', ' '] ++ f.number.digits) := rfl
    rw [hstem, List.mem_append, List.mem_append, not_or, not_or]
    exact ⟨f.term.not_mem hc, hm, f.number.term.not_mem hc⟩
  have hfield : isField (Leaf.field f).stem := isField_front f fun c hc => by cases hc; decide
  have hterminated : hasTerminatedNumber (Leaf.field f).stem = false := by
    refine Bool.eq_false_iff.2 fun h => ?_
    rcases (mem_of_hasTerminatedNumber h).2 with hm | hm
    · exact hmark ';' (by decide) (by decide) hm
    · exact hmark '[' (by decide) (by decide) hm
  have hunterminated : hasUnterminatedNumber (Leaf.field f).stem :=
    hasUnterminatedNumber_assigned f.front f.number
  rw [fieldCauses, hfield, hterminated, hunterminated]
  rfl

theorem not_mem_unnumbered {front gap : List Char} (hf : Term front) (hg : Blank gap) {c : Char}
    (hc : isTerm c = false) (hb : isBlank c = false) (hs : c ≠ ';') :
    c ∉ front ++ (gap ++ [';']) := by
  have hgap : c ∉ gap := by
    intro hm
    rw [hg c hm] at hb
    cases hb
  simp only [List.mem_append, List.mem_singleton, not_or]
  exact ⟨hf.not_mem hc, hgap, hs⟩

theorem fieldCauses_of_no_number (f : Field) {gap : List Char} (hgap : Blank gap) :
    fieldCauses (f.front ++ (gap ++ [';'])) = [.fieldLacksNumber] := by
  have hequals : '=' ∉ f.front ++ (gap ++ [';']) :=
    not_mem_unnumbered f.term hgap (by decide) (by decide) (by decide)
  have hfield : isField (f.front ++ (gap ++ [';'])) :=
    isField_front f (not_word_of_blank_cons hgap (by decide) [])
  have hterminated : hasTerminatedNumber (f.front ++ (gap ++ [';'])) = false :=
    Bool.eq_false_iff.2 fun h => hequals (mem_of_hasTerminatedNumber h).1
  have hunterminated : hasUnterminatedNumber (f.front ++ (gap ++ [';'])) = false :=
    Bool.eq_false_iff.2 fun h => hequals (mem_of_hasUnterminatedNumber h)
  rw [fieldCauses, hfield, hterminated, hunterminated]
  rfl

theorem valueCauses_of_no_semicolon (v : Value) :
    valueCauses (Leaf.value v).stem = [.valueLacksSemicolon] := by
  have hvalue : isEnumValue (Leaf.value v).stem :=
    isEnumValue_name v.name fun c hc => by cases hc; decide
  have hread : assignment? (Leaf.value v).stem =
      some (⟨v.name.text, v.negative, v.number.digits⟩, []) := by
    have := Value.afterNumeral v (t := []) (by simp)
    rwa [List.append_nil] at this
  rw [valueCauses, hvalue, isTerminatedValue, isUnterminatedValue, hread]
  rfl

theorem valueCauses_of_no_number (v : Value) {gap : List Char} (hgap : Blank gap) :
    valueCauses (v.name.text ++ (gap ++ [';'])) = [.valueLacksNumber] := by
  have hvalue : isEnumValue (v.name.text ++ (gap ++ [';'])) :=
    isEnumValue_name v.name (not_word_of_blank_cons hgap (by decide) [])
  rw [valueCauses, hvalue, isTerminatedValue, isUnterminatedValue,
    assignment?_of_unnumbered v.name hgap]
  rfl

theorem rpcCauses_of_no_semicolon (s : Signature) :
    Structure.rpcCauses (some .service) (Leaf.method s).stem = [.malformedRpc] := by
  have hrpc : isRpc (Leaf.method s).stem = false := by
    have := isRpc_signature s []
    rwa [List.append_nil] at this
  have hword : startsWith "rpc ".toList (Leaf.method s).stem := startsWith_iff.2 ⟨_, rfl⟩
  rw [Structure.rpcCauses, hrpc, hword]
  rfl

theorem semicolonFaults_led {n : Nat} {raw rest : List Char} {keyword : String}
    (hk : keyword ∈ ["syntax", "package", "import", "option"])
    (ht : trim raw = led keyword rest) (hsemicolon : ';' ∉ rest) (hbrace : '{' ∉ rest) :
    semicolonFaults n (raw.takeWhile isBlank).length (led keyword rest) =
      [{ line := n, column := (trimEnd raw).length, cause := .lacksSemicolon }] := by
  have hlead :
      (afterKeyword? ["syntax", "package", "import", "option"] (led keyword rest)).isSome :=
    afterKeyword?_isSome hk rest
  have hmarks : ∀ k ∈ ["syntax", "package", "import", "option"],
      ';' ∉ led k [] ∧ '{' ∉ led k [] := by decide
  have hled : led keyword rest = led keyword [] ++ rest := led_append keyword [] rest
  have hlacks : lacksSemicolon (led keyword rest) := by
    rw [lacksSemicolon, hlead, hled]
    simp [hmarks keyword hk, hsemicolon, hbrace]
  rw [semicolonFaults, if_pos hlacks, length_trimEnd ht (by simp [led])]

theorem LacksSemicolon.mem {n : Nat} {outer : List Block} {place : Place} {l : Leaf}
    (left : Written l.stem) {f : Fault} (h : LacksSemicolon n left.raw l f)
    (inside : outer.head?.map Block.kind = place.kind?) (holds : Holds place l) :
    f ∈ (Structure.step { stack := outer } (left.raw, n)).2 := by
  have hword : firstWord l.stem ≠ [] := by
    have := (l.firstWord_spec (t := [])).1
    rwa [List.append_nil] at this
  have hremark : remark l.stem = [] := by
    have := l.remark_stem (t := []) (by simp)
    rwa [List.append_nil] at this
  have hcontext : State.context { stack := outer } = place.kind? := inside
  rw [step_word n rfl left.trimmed hword hremark]
  cases h with
  | field f =>
      apply mem_scanCode_of_member
      rw [hcontext, holds.field_member, fieldCauses_of_no_semicolon]
      exact List.mem_singleton_self _
  | value v =>
      apply mem_scanCode_of_member
      rw [hcontext, holds.value_member, valueCauses_of_no_semicolon]
      exact List.mem_singleton_self _
  | method s =>
      apply mem_scanCode_of_rpc
      cases holds
      rw [hcontext, Place.kind?, rpcCauses_of_no_semicolon]
      exact List.mem_singleton_self _
  | @header g plain =>
      have hk : headerKeyword g ∈ ["syntax", "package", "import", "option"] := by
        cases g <;> simp [headerKeyword]
      have hbrace : '{' ∉ headerRest g := by
        intro hm
        exact ((Leaf.header g).inline _ (List.mem_append_right _ (List.mem_cons_of_mem _ hm))).1 rfl
      have hfaults : semicolonFaults n _ (Leaf.header g).stem = _ :=
        semicolonFaults_led hk left.trimmed plain hbrace
      apply mem_scanCode_of_semicolon
      rw [hfaults]
      exact List.mem_singleton_self _
  | deprecated =>
      have hfaults : semicolonFaults n _ Leaf.deprecated.stem = _ :=
        semicolonFaults_led (by decide) left.trimmed (by decide) (by decide)
      apply mem_scanCode_of_semicolon
      rw [hfaults]
      exact List.mem_singleton_self _

theorem mem_of_no_number {n : Nat} {outer : List Block} {raw text : List Char} {c : Cause}
    (ht : trim raw = text) (hw : firstWord text ≠ []) (hs : '/' ∉ text)
    (h : memberCauses (State.context { stack := outer }) text = [c]) :
    { line := n, cause := c } ∈ (Structure.step { stack := outer } (raw, n)).2 := by
  rw [step_word n rfl ht hw (remark_of_no_slash hs)]
  apply mem_scanCode_of_member
  rw [h]
  exact List.mem_singleton_self _

/-- Lines that are scanned with one block more leave it open at the end. -/
theorem Flow.keeps_outermost {n : Nat} {outer final : List Block} {rows : List Row}
    (h : Flow n outer rows final) {stack : List Block} {b : Block} (m : Nat)
    (hlength : stack.length = outer.length + 1) (hlast : stack.getLast? = some b) :
    ∃ rest, (Structure.scan { stack } ((rows.map Row.raw).zipIdx m)).1 = { stack := rest } ∧
      rest.length = final.length + 1 ∧ rest.getLast? = some b := by
  induction h generalizing stack m with
  | nil => exact ⟨stack, rfl, hlength, hlast⟩
  | @cons n row rows final sound rest ih =>
      rw [List.map_cons, scan_cons, sound.step_state]
      -- the line does to the longer stack what it does to the shorter one
      have hitem : (row.item.after m stack).length = (row.item.after n row.outer).length + 1 ∧
          (row.item.after m stack).getLast? = some b := by
        cases sound with
        | filler outer f => exact ⟨hlength, hlast⟩
        | leaf inside holds line => exact ⟨hlength, hlast⟩
        | opener inside opens first =>
            refine ⟨congrArg (· + 1) hlength, ?_⟩
            rw [Item.after, List.getLast?_cons, hlast]
            rfl
        | close block outer last =>
            obtain ⟨top, below, rfl⟩ : ∃ top below, stack = top :: below :=
              List.exists_cons_of_ne_nil (by rintro rfl; cases hlength)
            have hbelow : below ≠ [] := by
              rintro rfl
              cases hlength
            refine ⟨Nat.succ.inj hlength, ?_⟩
            rwa [List.getLast?_cons_of_ne_nil hbelow] at hlast
      exact ih (m + 1) hitem.1 hitem.2

theorem Flow.reports_outermost {n : Nat} {outer : List Block} {rows : List Row}
    (h : Flow n outer rows []) {stack : List Block} {b : Block} (m : Nat)
    (hlength : stack.length = outer.length + 1) (hlast : stack.getLast? = some b) :
    b.staysOpen ∈ faultsFrom { stack } m (rows.map Row.raw) := by
  obtain ⟨rest, hscan, hrest, hb⟩ := h.keeps_outermost m hlength hlast
  obtain ⟨top, rfl⟩ := List.length_eq_one_iff.1 hrest
  cases hb
  rw [faultsFrom, hscan]
  exact List.mem_append_right _ (List.mem_singleton_self _)

theorem step_unbraced {keyword : Keyword} {name : Name}
    (left : Written (led keyword.word name.text)) (stack : List Block) (n : Nat) :
    (Structure.step { stack } (left.raw, n)).1 =
      { stack, pending := some (opened n (.block keyword name)) } := by
  have hfront : Inner (led keyword.word name.text) := inner_front (.block keyword name)
  have hopener : opener? (led keyword.word name.text) = some ⟨keyword.kind, name.text, []⟩ := by
    have := opener?_led keyword name (t := []) (by simp)
    rwa [List.append_nil] at this
  have hword : firstWord (led keyword.word name.text) ≠ [] := by
    have := Opener.firstWord_ne_nil (.block keyword name) []
    rwa [List.append_nil] at this
  have hremark : remark (led keyword.word name.text) = [] :=
    remark_of_no_slash (hfront.not_mem (by decide))
  have hbrace : '{' ∉ led keyword.word name.text := hfront.not_mem (by decide)
  have hblocks : blocks { stack } n (led keyword.word name.text) =
      { stack, pending := some (opened n (.block keyword name)) } := by
    rw [blocks, declare_of_end hopener name.ne_nil rfl hbrace]
    apply balance_settled
    · rw [List.count_eq_zero.2 hbrace]
      exact Nat.zero_le _
    · exact hfront.not_mem (by decide)
  rw [step_word n rfl left.trimmed hword hremark, scanCode, hblocks]

/-- An opener that waits is reported by whatever comes, unless it is a brace. -/
theorem Flow.reports_pending {n : Nat} {outer final : List Block} {rows : List Row}
    (h : Flow n outer rows final) (stack : List Block) (b : Block) (m : Nat) :
    b.lacksBrace ∈ faultsFrom { stack, pending := some b } m (rows.map Row.raw) := by
  induction h generalizing m with
  | nil => exact List.mem_append_right _ (List.mem_append_left _ (List.mem_singleton_self _))
  | @cons n row rows final sound rest ih =>
      rw [List.map_cons, faultsFrom_cons]
      cases sound with
      | filler outer f =>
          rcases f.trimmed with hf | hf
          · have hstep : Structure.step { stack, pending := some b } (f.raw, m) =
                ({ stack, pending := some b }, []) := by
              rw [Structure.step]
              simp [hf]
            rw [hstep]
            exact ih (m + 1)
          · obtain ⟨t, ht⟩ := startsWith_iff.1 hf
            have hstep : Structure.step { stack, pending := some b } (f.raw, m) =
                ({ stack }, [b.lacksBrace]) := by
              rw [Structure.step, ← ht]
              rfl
            rw [hstep]
            exact List.mem_cons_self ..
      | @leaf outer place l inside holds line =>
          refine List.mem_append_left _ ?_
          rw [step_leaf line m rfl]
          exact lacksBrace_mem_scanCode rfl (head?_ne_of_firstWord l.firstWord_spec.1 (by decide)) _
      | @opener outer place inner o inside opens first =>
          have hword : firstWord o.text ≠ [] := Opener.firstWord_ne_nil o _
          refine List.mem_append_left _ ?_
          rw [step_opener first m rfl]
          exact lacksBrace_mem_scanCode rfl (head?_ne_of_firstWord hword (by decide)) _
      | close block outer last =>
          refine List.mem_append_left _ ?_
          rw [step_close last m rfl]
          exact lacksBrace_mem_scanCode rfl (by decide) _

/-- A damaged line, and the lines after it as they are, have its fault. -/
theorem Damage.mem_faultsFrom {n m : Nat} {row : Row} {left : List (List Char)} {f : Fault}
    (damage : Damage n row left f) (sound : row.Sound) {after : List Row}
    (hafter : Flow m (row.item.after n row.outer) after []) :
    f ∈ faultsFrom { stack := row.outer } n (left ++ after.map Row.raw) := by
  have hstep : ∀ {raw : List Char}, f ∈ (Structure.step { stack := row.outer } (raw, n)).2 →
      f ∈ faultsFrom { stack := row.outer } n (raw :: after.map Row.raw) := by
    intro raw hf
    rw [faultsFrom_cons]
    exact List.mem_append_left _ hf
  cases damage with
  | noClose outermost =>
      cases sound with
      | close block outer last => exact hafter.reports_outermost n rfl outermost
  | @noBrace outer raw keyword name left =>
      rw [List.singleton_append, faultsFrom_cons, step_unbraced left]
      exact List.mem_append_right _ (hafter.reports_pending _ _ _)
  | noSemicolon left fault =>
      cases sound with
      | leaf inside holds line => exact hstep (fault.mem left inside holds)
  | @noFieldNumber outer raw gap g blank left =>
      cases sound with
      | leaf inside holds line =>
          apply hstep
          apply mem_of_no_number left.trimmed (firstWord_field g _).1
          · exact not_mem_unnumbered g.term blank (by decide) (by decide) (by decide)
          · rw [State.context, inside, holds.field_member, fieldCauses_of_no_number g blank]
  | @noValueNumber outer raw gap v blank left =>
      cases sound with
      | leaf inside holds line =>
          apply hstep
          apply mem_of_no_number left.trimmed
          · rw [firstWord_name v.name (not_word_of_blank_cons blank (by decide) [])]
            exact v.name.ne_nil
          · exact not_mem_unnumbered v.name.term blank (by decide) (by decide) (by decide)
          · rw [State.context, inside, holds.value_member, valueCauses_of_no_number v blank]

/-- A well-formed source with the line after the first `n` damaged has the fault of the damage. -/
theorem damage_found (d : Document) {n : Nat} {row : Row} {left : List (List Char)} {f : Fault}
    (h : d.rows[n]? = some row) (damage : Damage (n + 1) row left f) :
    f ∈ check (d.lines.take n ++ left ++ d.lines.drop (n + 1)) := by
  obtain ⟨hn, rfl⟩ := List.getElem?_eq_some_iff.1 h
  have hrows : d.rows = d.rows.take n ++ d.rows[n] :: d.rows.drop (n + 1) := by
    rw [List.getElem_cons_drop, List.take_append_drop]
  have hflow := flow d
  rw [hrows] at hflow
  obtain ⟨outer, hbefore, hrow⟩ := hflow.split
  obtain ⟨rfl, sound, hafter⟩ := hrow.of_cons
  rw [List.length_take_of_le (Nat.le_of_lt hn), Nat.add_comm 1] at hafter
  -- the lines before the damage leave the blocks that its line stands in
  have hscan := hbefore.scan
  rw [List.map_take] at hscan
  rw [check_eq, List.append_assoc, faultsFrom_append, lines, hscan, ← List.map_drop]
  refine List.mem_append_right _ ?_
  rw [List.length_take_of_le (by rw [List.length_map]; exact Nat.le_of_lt hn), Nat.add_comm 1]
  exact damage.mem_faultsFrom sound hafter

/-- The sample without a closing brace, without an opening one, without a semicolon and without a
number. -/
theorem damage_found_sample :
    Block.staysOpen ⟨.message, "User".toList, 3⟩ ∈
        check (sample.lines.take 6 ++ [] ++ sample.lines.drop 7) ∧
      Block.lacksBrace ⟨.enum, "Role".toList, 5⟩ ∈
        check (sample.lines.take 4 ++ ["  enum Role ".toList] ++ sample.lines.drop 5) ∧
      { line := 4, cause := .fieldLacksSemicolon } ∈
        check (sample.lines.take 3 ++ ["  string name = 1".toList] ++ sample.lines.drop 4) ∧
      { line := 6, cause := .valueLacksNumber } ∈
        check
          (sample.lines.take 5 ++ ["    ROLE_UNSPECIFIED ;".toList] ++ sample.lines.drop 6) := by
  have hblank : Blank [' '] := by decide
  refine ⟨?_, ?_, ?_, ?_⟩
  · exact damage_found sample rfl (.noClose rfl)
  · exact damage_found sample rfl (.noBrace ⟨"  enum Role ".toList, by decide⟩)
  · exact damage_found sample rfl (.noSemicolon ⟨"  string name = 1".toList, by decide⟩ (.field _))
  · exact damage_found sample rfl
      (.noValueNumber hblank ⟨"    ROLE_UNSPECIFIED ;".toList, by decide⟩)

end SchemaLint.Document
