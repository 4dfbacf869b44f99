import SchemaLint.Proofs.Document.Rows
import SchemaLint.Proofs.Document.Shapes
import SchemaLint.Proofs.Structure.Checks
import SchemaLint.Proofs.Structure.Nesting

/-! The structural scan of a well-formed source. Before each line the open blocks are those that
the line stands in, and no opener waits; so each line is checked as what it is, and only a syntax
statement with an unknown value has a fault. -/

namespace SchemaLint.Document
open SchemaLint.Text SchemaLint.Schema SchemaLint.Structure
open SchemaLint.Line hiding Opener

theorem step_code {s : State} {raw text : List Char} (n : Nat) (hs : s.inComment = false)
    (ht : trim raw = text) (hn : text ≠ []) (hc : isComment text = false) (hr : remark text = []) :
    Structure.step s (raw, n) = scanCode s n (raw.takeWhile isBlank).length text := by
  have hcode : code text = text := code_of_remark (ht ▸ trim_trim raw) hr
  rw [Structure.step, hs]
  simp only [ht, Bool.false_eq_true, if_false, hn, hc, hcode]

theorem step_word {s : State} {raw text : List Char} (n : Nat) (hs : s.inComment = false)
    (ht : trim raw = text) (hw : firstWord text ≠ []) (hr : remark text = []) :
    Structure.step s (raw, n) = scanCode s n (raw.takeWhile isBlank).length text := by
  refine step_code n hs ht ?_ (isComment_of_firstWord hw) hr
  rintro rfl
  exact hw rfl

theorem step_leaf {s : State} {l : Leaf} (line : Written l.text) (n : Nat)
    (hs : s.inComment = false) :
    Structure.step s (line.raw, n) = scanCode s n (line.raw.takeWhile isBlank).length l.text :=
  step_word n hs line.trimmed l.firstWord_spec.1 (l.remark_stem (by decide))

theorem Opener.firstWord_ne_nil (o : Opener) (t : List Char) : firstWord (o.front ++ t) ≠ [] := by
  rw [firstWord_opener]
  exact (keywords_spec _ (openerKeyword_mem o)).1

theorem Opener.remark_front (o : Opener) {t : List Char} (ht : '/' ∉ t) :
    remark (o.front ++ t) = [] := by
  apply remark_of_no_slash
  rw [List.mem_append, not_or]
  exact ⟨(inner_front o).not_mem (by decide), ht⟩

theorem step_opener {s : State} {o : Opener} (first : Written o.text) (n : Nat)
    (hs : s.inComment = false) :
    Structure.step s (first.raw, n) = scanCode s n (first.raw.takeWhile isBlank).length o.text :=
  step_word n hs first.trimmed (Opener.firstWord_ne_nil o _) (Opener.remark_front o (by decide))

theorem step_close {s : State} (last : Written ['}']) (n : Nat) (hs : s.inComment = false) :
    Structure.step s (last.raw, n) = scanCode s n (last.raw.takeWhile isBlank).length ['}'] :=
  step_code n hs last.trimmed (by decide) (by decide) (by decide)

theorem step_filler (f : Filler) (stack : List Block) (n : Nat) :
    Structure.step { stack } (f.raw, n) = ({ stack }, []) := by
  rw [Structure.step]
  rcases f.trimmed with h | h
  · simp [h]
  · obtain ⟨t, ht⟩ := startsWith_iff.1 h
    rw [← ht]
    rfl

def statementWords : List String :=
  ["syntax", "package", "import", "option", "reserved", "rpc"]

theorem Leaf.keyword?_mem {l : Leaf} {k : String} (h : l.keyword? = some k) :
    k ∈ statementWords := by
  cases l with
  | header g =>
      cases h
      cases g <;> simp [headerKeyword, statementWords]
  | field f => cases h
  | reserved r =>
      cases h
      decide
  | value v => cases h
  | method s =>
      cases h
      decide
  | deprecated =>
      cases h
      decide

/-- No statement starts with another keyword, but for the labels of fields. -/
theorem Leaf.firstWord_ne (l : Leaf) (t : List Char) {k : String} (hk : k ∈ keywords)
    (hl : k ∉ fieldLabels) (hs : k ∉ statementWords) : k.toList ≠ firstWord (l.stem ++ t) :=
  l.firstWord_spec.2 k hk hl fun h => hs (Leaf.keyword?_mem h)

theorem opener?_leaf (l : Leaf) (t : List Char) : opener? (l.stem ++ t) = none := by
  have hk : ∀ kind ∈ BlockKind.declared,
      kind.word ∈ keywords ∧ kind.word ∉ fieldLabels ∧ kind.word ∉ statementWords := by
    decide
  apply opener?_eq_none
  intro kind hkind
  obtain ⟨h, hl, hs⟩ := hk kind hkind
  exact l.firstWord_ne t h hl hs

theorem Leaf.no_brace (l : Leaf) : '{' ∉ l.text ∧ '}' ∉ l.text := by
  have hsemicolon : Inner [';'] := by decide
  have hinline : Inline l.text := inline_append.2 ⟨l.inline, hsemicolon.inline⟩
  exact ⟨fun h => (hinline _ h).1 rfl, fun h => (hinline _ h).2.1 rfl⟩

theorem blocks_leaf (stack : List Block) (n : Nat) (l : Leaf) :
    blocks { stack } n l.text = { stack } := by
  have hnone : opener? l.text = none := opener?_leaf l [';']
  rw [blocks, declare_of_none hnone]
  apply balance_settled
  · rw [List.count_eq_zero.2 l.no_brace.1]
    exact Nat.zero_le _
  · exact l.no_brace.2

theorem blocks_opener (stack : List Block) (n : Nat) (o : Opener) :
    ∃ claimed, blocks { stack } n o.text = { stack := opened n o :: stack, claimed } := by
  have hfront : Inner o.front := inner_front o
  have hcount : o.text.count '{' = 1 := by
    rw [Opener.text, List.count_append, List.count_eq_zero.2 (hfront.not_mem (by decide))]
    rfl
  have hclose : '}' ∉ o.text := by
    rw [Opener.text, List.mem_append, not_or]
    exact ⟨hfront.not_mem (by decide), by decide⟩
  cases o with
  | block keyword name =>
      have hopener : opener? (Opener.block keyword name).text =
          some ⟨keyword.kind, name.text, " \x7b".toList⟩ :=
        opener?_led keyword name fun c hc => by cases hc; decide
      have hbrace : '{' ∈ (Opener.block keyword name).text :=
        List.count_pos_iff.1 (hcount ▸ Nat.one_pos)
      refine ⟨true, ?_⟩
      rw [blocks, declare_of_brace hopener name.ne_nil hbrace]
      exact balance_settled (Nat.le_of_eq hcount) hclose
  | method s =>
      have hword : ∀ kind ∈ BlockKind.declared, kind.word.toList ≠ "rpc".toList := by decide
      have hopener : opener? (Opener.method s).text = none := by
        apply opener?_eq_none
        rw [Opener.text, firstWord_opener]
        exact hword
      refine ⟨false, ?_⟩
      rw [blocks, declare_of_none hopener]
      exact balance_unclaimed hcount rfl hclose

/-- Whatever blocks are open, a line opens and closes what it says. -/
theorem Row.Sound.step_state {row : Row} (h : row.Sound) (stack : List Block) (n : Nat) :
    (Structure.step { stack } (row.raw, n)).1 = { stack := row.item.after n stack } := by
  cases h with
  | filler outer f =>
      rw [step_filler]
      rfl
  | leaf inside holds line =>
      rw [step_leaf line n rfl, scanCode, blocks_leaf]
      rfl
  | opener inside opens first =>
      rw [step_opener first n rfl, scanCode]
      obtain ⟨claimed, hblocks⟩ := blocks_opener stack n _
      rw [hblocks]
      rfl
  | close block outer last =>
      rw [step_close last n rfl, scanCode, blocks_close]
      rfl

/-- What is wrong with a well-formed statement: at most the value of a syntax statement. -/
def Leaf.causes : Leaf → List Structure.Cause
  | header (.syntaxDecl q) => if isKnownSyntax q.text then [] else [.unknownSyntax q.text]
  | _ => []

def Item.faults (line : Nat) : Item → List Fault
  | leaf l => l.causes.map fun cause => { line, cause }
  | _ => []

theorem Leaf.syntaxCauses (l : Leaf) : Structure.syntaxCauses l.text = l.causes := by
  have hother : l.keyword? ≠ some "syntax" → Structure.syntaxCauses l.text = [] := fun h =>
    syntaxCauses_of_firstWord (l.firstWord_spec.2 "syntax" (by decide) (by decide) h)
  cases l with
  | header h =>
      cases h with
      | syntaxDecl q => rw [Structure.syntaxCauses, syntaxValue?_of_syntaxDecl, causes]
      | _ => exact hother (by simp [keyword?, headerKeyword])
  | _ => exact hother (by simp [keyword?])

theorem Holds.memberCauses {place : Place} {l : Leaf} (h : Holds place l) :
    Structure.memberCauses place.kind? l.text = [] := by
  have hreserved : ∀ r : Reservation, firstWord (Leaf.reserved r).text = "reserved".toList :=
    fun r => (Leaf.firstWord_of_keyword (l := .reserved r) rfl [';']).2
  cases h with
  | header g => rfl
  | field f => exact fieldCauses_of_terminated (hasTerminatedNumber_assigned _ f.number)
  | reserved r => exact fieldCauses_of_not_field (isField_of_nested (hreserved r) (by decide))
  | choice f => exact fieldCauses_of_terminated (hasTerminatedNumber_assigned _ f.number)
  | value v =>
      apply valueCauses_of_terminated
      have hread : assignment? (Leaf.value v).text = _ :=
        Value.afterNumeral v fun c hc => by cases hc; decide
      rw [isTerminatedValue, hread]
      rfl
  | unused r =>
      apply valueCauses_of_not_value
      have : startsWith "reserved ".toList (Leaf.reserved r).text := startsWith_iff.2 ⟨_, rfl⟩
      rw [isEnumValue, this, Bool.not_true, Bool.and_false, Bool.false_and]
  | method s => rfl
  | deprecated => rfl

theorem Opens.memberCauses {place inner : Place} {o : Opener} (h : Opens place o inner) :
    Structure.memberCauses place.kind? o.text = [] := by
  have hnested : ∀ {o : Opener}, openerKeyword o ∈ ["message", "enum", "oneof", "extend",
      "reserved", "option", "extensions"] → fieldCauses o.text = [] := fun hk =>
    fieldCauses_of_not_field (isField_of_nested (firstWord_opener _ _) hk)
  cases h with
  | message name => rfl
  | enum name => rfl
  | service name => rfl
  | innerMessage name => exact hnested (by simp [openerKeyword, Keyword.word])
  | innerEnum name => exact hnested (by simp [openerKeyword, Keyword.word])
  | oneof name => exact hnested (by simp [openerKeyword, Keyword.word])
  | method s => rfl

theorem memberCauses_close (context : Option BlockKind) :
    Structure.memberCauses context ['}'] = [] := by
  rcases context with _ | kind
  · rfl
  · cases kind <;> rfl

theorem Holds.rpcCauses {place : Place} {l : Leaf} (h : Holds place l) :
    Structure.rpcCauses place.kind? l.text = [] := by
  cases h with
  | method s => exact rpcCauses_of_isRpc _ (isRpc_signature s [';'])
  | _ => exact rpcCauses_of_ne (by simp [Place.kind?])

theorem Opens.rpcCauses {place inner : Place} {o : Opener} (h : Opens place o inner) :
    Structure.rpcCauses place.kind? o.text = [] := by
  cases h with
  | method s => exact rpcCauses_of_isRpc _ (isRpc_signature s " \x7b".toList)
  | _ => exact rpcCauses_of_ne (by simp [Place.kind?])

theorem top_or_inside {place : Place} {stack : List Block}
    (inside : stack.head?.map Block.kind = place.kind?) :
    place = .top ∨ State.atTopLevel { stack } = false := by
  cases stack with
  | nil =>
      refine .inl ?_
      cases place <;> simp [Place.kind?] at inside ⊢
  | cons block stack => exact .inr rfl

theorem Holds.topLevelCauses {place : Place} {l : Leaf} (h : Holds place l) {stack : List Block}
    (inside : stack.head?.map Block.kind = place.kind?) :
    Structure.topLevelCauses (State.atTopLevel { stack }) l.text = [] := by
  rcases top_or_inside inside with rfl | hinside
  · cases h with
    | header g =>
        apply topLevelCauses_of_isTopLevel
        have hk : headerKeyword g ∈ ["syntax", "package", "import", "option", "message", "enum",
            "service", "extend"] := by
          cases g <;> simp [headerKeyword]
        have := isTopLevel_keyword hk (headerRest g ++ [';'])
        rwa [← led, led_append] at this
  · rw [hinside]
    exact topLevelCauses_of_inside l.text

theorem Opens.topLevelCauses {place inner : Place} {o : Opener} (h : Opens place o inner)
    {stack : List Block} (inside : stack.head?.map Block.kind = place.kind?) :
    Structure.topLevelCauses (State.atTopLevel { stack }) o.text = [] := by
  have hkeyword : ∀ {keyword : Keyword} {name : Name}, keyword.word ∈ ["syntax", "package",
      "import", "option", "message", "enum", "service", "extend"] →
      isTopLevel (Opener.block keyword name).text := by
    intro keyword name hk
    have := isTopLevel_keyword hk (name.text ++ " \x7b".toList)
    rwa [← led, led_append] at this
  rcases top_or_inside inside with rfl | hinside
  · apply topLevelCauses_of_isTopLevel
    cases h with
    | message name => exact hkeyword (by simp [Keyword.word])
    | enum name => exact hkeyword (by simp [Keyword.word])
    | service name => exact hkeyword (by simp [Keyword.word])
  · rw [hinside]
    exact topLevelCauses_of_inside o.text

/-- A line in the blocks that it stands in has no fault but an unknown syntax. -/
theorem Row.Sound.step_faults {row : Row} (h : row.Sound) (n : Nat) :
    (Structure.step { stack := row.outer } (row.raw, n)).2 = row.item.faults n := by
  cases h with
  | filler outer f =>
      rw [step_filler]
      rfl
  | @leaf outer place l inside holds line =>
      have hsemicolon : ';' ∈ l.text := List.mem_append_right _ (List.mem_cons_self ..)
      have htrailing : ∀ indent, trailingFaults n indent l.text = [] := fun indent =>
        trailingFaults_concat n indent l.stem
      rw [step_leaf line n rfl]
      simp only [scanCode, State.context, inside, blocks_leaf, holds.memberCauses,
        holds.rpcCauses, l.syntaxCauses, htrailing, holds.topLevelCauses inside,
        semicolonFaults_of_mem n _ (.inl hsemicolon), List.map_nil, List.nil_append,
        List.append_nil, Item.faults]
  | @opener outer place inner o inside opens first =>
      obtain ⟨claimed, hblocks⟩ := blocks_opener outer n o
      have hbrace : '{' ∈ o.text := List.mem_append_right _ (by decide)
      have hword : "syntax".toList ≠ firstWord o.text := by
        rw [Opener.text, firstWord_opener]
        cases opens <;> simp [openerKeyword, Keyword.word]
      rw [step_opener first n rfl]
      simp only [scanCode, State.context, inside, hblocks, opens.memberCauses, opens.rpcCauses,
        syntaxCauses_of_firstWord hword, opens.topLevelCauses inside,
        trailingFaults_of_brace n _ hbrace, semicolonFaults_of_mem n _ (.inr hbrace), List.map_nil,
        List.append_nil, Item.faults]
  | close block outer last =>
      rw [step_close last n rfl]
      have hrpc : ∀ context, Structure.rpcCauses context ['}'] = [] := fun context =>
        rpcCauses_of_firstWord context (by decide)
      have hsyntax : Structure.syntaxCauses ['}'] = [] := syntaxCauses_of_firstWord (by decide)
      have htrailing : ∀ indent, trailingFaults n indent ['}'] = [] := fun indent =>
        trailingFaults_of_no_semicolon n indent (by decide)
      have hsemicolon : ∀ indent, semicolonFaults n indent ['}'] = [] := fun indent =>
        if_neg (by decide)
      have htop : Structure.topLevelCauses (State.atTopLevel { stack := block :: outer }) ['}'] =
          [] := topLevelCauses_of_inside _
      simp [scanCode, memberCauses_close, blocks_close, hrpc, hsyntax, htrailing, hsemicolon, htop,
        Item.faults]

theorem Flow.scan {n : Nat} {outer final : List Block} {rows : List Row}
    (h : Flow n outer rows final) :
    Structure.scan { stack := outer } ((rows.map Row.raw).zipIdx n) =
      ({ stack := final }, (rows.zipIdx n).flatMap fun (row, line) => row.item.faults line) := by
  induction h with
  | nil => rfl
  | cons sound rest ih =>
      rw [List.map_cons, scan_cons, sound.step_state, sound.step_faults, ih]
      rfl

theorem check_lines (d : Document) :
    check d.lines = (d.rows.zipIdx 1).flatMap fun (row, line) => row.item.faults line := by
  have h := (flow d).scan
  rw [check, lines, h]
  exact List.append_nil _

/-- Every syntax statement names a syntax that there is. -/
def Item.Known : Item → Prop
  | leaf (.header (.syntaxDecl q)) => isKnownSyntax q.text
  | _ => True

theorem Item.faults_eq_nil_iff (i : Item) (line : Nat) : i.faults line = [] ↔ i.Known := by
  unfold Item.faults Leaf.causes Item.Known
  repeat' split
  all_goals simp_all

def Known (d : Document) : Prop :=
  ∀ row ∈ d.rows, row.item.Known

/-- The blocks that the line after the first `n` stands in; none at the end. -/
def blocksAt (d : Document) (n : Nat) : List Block :=
  (d.rows[n]?.map Row.outer).getD []

/-- A well-formed source has no fault if its syntax is known, and only then. Before each line, and
at the end, the open blocks are those that the line stands in, no opener waits and no comment is
open. -/
theorem no_fault_iff_known (d : Document) :
    (check d.lines = [] ↔ d.Known) ∧
      ∀ n, (Structure.scan {} ((d.lines.take n).zipIdx 1)).1 = { stack := d.blocksAt n } := by
  constructor
  · rw [check_lines, List.flatMap_eq_nil_iff]
    constructor
    · intro h row hrow
      obtain ⟨i, hi⟩ := List.mem_iff_getElem?.1 hrow
      have hmem : (row, 1 + i) ∈ d.rows.zipIdx 1 := List.mem_zipIdx_iff_le_and_getElem?_sub.2
        ⟨Nat.le_add_right 1 i, by rwa [Nat.add_sub_cancel_left]⟩
      exact (Item.faults_eq_nil_iff _ _).1 (h _ hmem)
    · intro h item hitem
      exact (Item.faults_eq_nil_iff _ _).2 (h _ (List.fst_mem_of_mem_zipIdx hitem))
  · intro n
    have hflow := flow d
    rw [← List.take_append_drop n d.rows] at hflow
    obtain ⟨middle, hbefore, hafter⟩ := hflow.split
    have hmiddle : middle = d.blocksAt n := by
      rw [blocksAt, ← List.head?_drop]
      cases hrows : d.rows.drop n with
      | nil =>
          rw [hrows] at hafter
          cases hafter
          rfl
      | cons row rows =>
          rw [hrows] at hafter
          exact hafter.of_cons.1.symm
    rw [lines, ← List.map_take, hbefore.scan, hmiddle]

example : check sample.lines = [] ∧
    sample.blocksAt 5 = [⟨.enum, "Role".toList, 5⟩, ⟨.message, "User".toList, 3⟩] := by
  decide

end SchemaLint.Document
