import SchemaLint.Proofs.Document.Findings
import SchemaLint.Proofs.Document.Shapes
import SchemaLint.Proofs.Document.Scan
import SchemaLint.Proofs.Style.Checks
import SchemaLint.Proofs.Style.Nesting

/-! The style pass over a well-formed source. In each place the pass knows the service around it and
the enum that is open, so each line has the findings of what it is. -/

namespace SchemaLint.Document
open SchemaLint.Text SchemaLint.Schema SchemaLint.Style
open SchemaLint.Line hiding Opener

def Place.isEnum : Place → Bool
  | enum => true
  | _ => false

/-- The depth at which the service around a place is declared. -/
def Place.serviceDepth : Place → Option Int
  | service => some 0
  | method => some 0
  | _ => none

/-- The depths at which a place may be; services are not nested. -/
def Place.Fits : Place → Int → Prop
  | top, depth => depth = 0
  | service, depth => depth = 1
  | method, depth => depth = 2
  | _, _ => True

theorem Opens.fits {place inner : Place} {o : Opener} (h : Opens place o inner) {depth : Int}
    (hd : place.Fits depth) : inner.Fits (depth + 1) := by
  cases h <;> simp_all [Place.Fits]

theorem Opens.isEnum_eq_false {place inner : Place} {o : Opener} (h : Opens place o inner) :
    place.isEnum = false := by
  cases h <;> rfl

/-- Values that are read, after those that the enum has. -/
def collected (e : OpenEnum) (values : List (Nat × Value)) : OpenEnum :=
  { e with
    values := e.values ++ values.map fun (line, v) =>
      ⟨v.name.text, Numeral.signed v.negative (Numeral.value v.number.digits), line⟩ }

theorem map_collected_append (e : Option OpenEnum) (values more : List (Nat × Value)) :
    e.map (collected · (values ++ more)) =
      (e.map (collected · values)).map (collected · more) := by
  cases e <;> simp [collected]

theorem map_collected_nil (e : Option OpenEnum) : e.map (collected · []) = e := by
  cases e <;> simp [collected]

/-- The pass stands in a place at a depth, with an enum that is open and the imports so far. -/
structure At (place : Place) (depth : Int) (e : Option OpenEnum) (imports : List (Nat × Bool))
    (s : Style.State) : Prop where
  fits : place.Fits depth
  isEnum : e.isSome = place.isEnum
  depth : s.depth = depth
  serviceDepth : s.serviceDepth = place.serviceDepth
  openEnum : s.openEnum = e
  imports : s.imports.map (fun i => (i.line, i.isPublic)) = imports
  inComment : s.inComment = false
  overlong : s.overlong = none

section
variable {place : Place} {depth : Int} {e : Option OpenEnum} {imports : List (Nat × Bool)}
  {s : Style.State} (h : At place depth e imports s)
include h

theorem At.afterComment (b : Bool) : At place depth e imports { s with afterComment := b } :=
  { h with }

theorem At.noteHeader (n : Nat) {text : List Char} (hw : "import".toList ≠ firstWord text) :
    At place depth e imports (s.noteHeader n text) := by
  have hstart : startsWith "import ".toList text = false :=
    startsWith_spaced_eq_false "import".toList (by decide) hw
  refine { h with imports := ?_ }
  rw [Style.State.noteHeader, hstart]
  exact h.imports

theorem At.noteImport (n : Nat) {text : List Char} {isPublic : Bool}
    (hw : startsWith "import ".toList text)
    (hpublic : startsWith "import public ".toList text = isPublic) :
    At place depth e (imports ++ [(n, isPublic)]) (s.noteHeader n text) := by
  refine { h with imports := ?_ }
  rw [Style.State.noteHeader, hw, hpublic]
  simp [h.imports]

theorem At.noteLeaf (n : Nat) (l : Leaf) :
    At place depth e (imports ++ (l.import?.map (n, ·)).toList) (s.noteHeader n l.text) := by
  have hother : l.keyword? ≠ some "import" → l.import? = none →
      At place depth e (imports ++ (l.import?.map (n, ·)).toList) (s.noteHeader n l.text) := by
    intro hk hi
    rw [hi, Option.map_none, Option.toList_none, List.append_nil]
    exact h.noteHeader n (l.firstWord_spec.2 "import" (by decide) (by decide) hk)
  cases l with
  | header g =>
      cases g with
      | importDecl q =>
          rw [header_text]
          refine h.noteImport n (startsWith_led "import" _) ?_
          simp [startsWith, after?, led, headerKeyword, headerRest, Quotable.quoted]
      | publicImport q =>
          rw [header_text]
          refine h.noteImport n (startsWith_led "import" _) ?_
          simp [startsWith, after?, led, headerKeyword, headerRest]
      | syntaxDecl q => exact hother (by simp [Leaf.keyword?, headerKeyword]) rfl
      | packageDecl p => exact hother (by simp [Leaf.keyword?, headerKeyword]) rfl
      | optionDecl m q => exact hother (by simp [Leaf.keyword?, headerKeyword]) rfl
  | _ => exact hother (by simp [Leaf.keyword?]) rfl

theorem At.eq_none (hp : place.isEnum = false) : e = none :=
  Option.not_isSome_iff_eq_none.1 (by rw [h.isEnum, hp]; exact Bool.false_ne_true)

theorem At.closed (hp : place.isEnum = false) : s.openEnum = none :=
  h.openEnum.trans (h.eq_none hp)

end

/-- What a line of code leads to: a place that the pass stands in then, and findings. -/
structure Leads (place : Place) (depth : Int) (e : Option OpenEnum) (imports : List (Nat × Bool))
    (findings : List Finding) (result : Style.State × List Finding) : Prop where
  stands : At place depth e imports result.1
  afterCode : result.1.afterComment = false
  found : result.2 = findings

theorem step_statement {s u : Style.State} {l : Leaf} (line : Written l.text) {n : Nat}
    {values fields methods : List Finding} (hs : s.inComment = false)
    (hcollect : State.collect n (s.noteHeader n l.text) l.text = (u, values))
    (hfield : u.fieldFindings n l.text = fields)
    (hservice : u.readService n l.text = (u, methods)) :
    Style.step s (line.raw, n) =
      ({ u with afterComment := false },
        lengthFindings n line.raw ++ (values ++ (fields ++ methods))) := by
  have hword : ∀ {k : String}, k ∈ keywords → k ∉ fieldLabels → k ∉ statementWords →
      k.toList ≠ firstWord l.text := fun hk hl hs => l.firstWord_ne [';'] hk hl hs
  have hmessage : messageFindings n l.text = [] :=
    messageFindings_of_firstWord (hword (by decide) (by decide) (by decide))
  have henum : (s.noteHeader n l.text).readEnum n l.text = (u, values) := by
    rw [readEnum_of_firstWord _ n (hword (by decide) (by decide) (by decide)), hcollect]
  have hbraces : Pass.run Style.State.brace u l.text = (u, []) :=
    run_brace_quiet u l.no_brace.1 l.no_brace.2
  rw [Style.step_code hs line.trimmed (isComment_of_firstWord l.firstWord_spec.1)
    (l.remark_stem (by decide))]
  simp only [hmessage, henum, hfield, hservice, hbraces, List.append_nil, List.append_assoc]

theorem readService_leaf (s : Style.State) (n : Nat) {l : Leaf} (h : l.keyword? ≠ some "rpc") :
    s.readService n l.text = (s, []) :=
  readService_of_firstWord s n (l.firstWord_ne [';'] (by decide) (by decide) (by decide))
    (l.firstWord_spec.2 "rpc" (by decide) (by decide) h)

section
variable {place : Place} {depth : Int} {e : Option OpenEnum} {imports : List (Nat × Bool)}
  {s : Style.State}

/-- A statement that is no value and no method leaves all that its place fixes. -/
theorem At.step_quiet (h : At place depth e imports s) {l : Leaf} (line : Written l.text) (n : Nat)
    (hv : l.value? = none) (hk : l.keyword? ≠ some "rpc")
    (hcollect : State.collect n (s.noteHeader n l.text) l.text = (s.noteHeader n l.text, []))
    (hfield : (s.noteHeader n l.text).fieldFindings n l.text = l.findings n s.afterComment) :
    Leads place depth (e.map (collected · (l.value?.map (n, ·)).toList))
      (imports ++ (l.import?.map (n, ·)).toList)
      (lengthFindings n line.raw ++ l.findings n s.afterComment)
      (Style.step s (line.raw, n)) := by
  rw [step_statement line h.inComment hcollect hfield (readService_leaf _ n hk), hv,
    Option.map_none, Option.toList_none, map_collected_nil]
  exact ⟨(h.noteLeaf n l).afterComment false, rfl, by simp⟩

theorem At.step_value (h : At .enum depth e imports s) (v : Value)
    (line : Written (Leaf.value v).text) (n : Nat)
    (hread : v.number.digits.length ≤ Numeral.maxDigits) :
    Leads .enum depth (e.map (collected · [(n, v)])) imports
      (lengthFindings n line.raw ++ (Leaf.value v).findings n s.afterComment)
      (Style.step s (line.raw, n)) := by
  obtain ⟨o, rfl⟩ := Option.isSome_iff_exists.1 h.isEnum
  have hnote := h.noteLeaf n (.value v)
  have hassigned : assignment? (Leaf.value v).text =
      some (⟨v.name.text, v.negative, v.number.digits⟩, [';']) :=
    Value.afterNumeral v fun c hc => by cases hc; decide
  have hcollect := collect_of_some (n := n) hnote.openEnum hassigned hread
  rw [step_statement line h.inComment hcollect (fieldFindings_of_open _ rfl)
    (readService_leaf _ n (by simp [Leaf.keyword?]))]
  refine ⟨{ hnote with isEnum := rfl, openEnum := rfl, imports := ?_ }, rfl,
    by simp [Leaf.findings]⟩
  exact hnote.imports.trans (List.append_nil imports)

theorem At.step_method (h : At .service depth e imports s) (g : Signature)
    (line : Written (Leaf.method g).text) (n : Nat) :
    Leads .service depth e imports
      (lengthFindings n line.raw ++ (Leaf.method g).findings n s.afterComment)
      (Style.step s (line.raw, n)) := by
  have hnote : At .service depth e imports (s.noteHeader n (Leaf.method g).text) :=
    List.append_nil imports ▸ h.noteLeaf n (.method g)
  have hopen : (s.noteHeader n (Leaf.method g).text).serviceDepth.isSome := by
    rw [hnote.serviceDepth]
    rfl
  rw [step_statement line h.inComment (collect_of_closed n _ (hnote.closed rfl))
    (fieldFindings_of_none _ n (Leaf.fieldName?_eq_none nofun nofun))
    (readService_of_rpc n ((Leaf.method g).firstWord_ne [';'] (by decide) (by decide)
      (by decide)) hopen (startsWith_led "rpc" _))]
  exact ⟨hnote.afterComment false, rfl, rfl⟩

theorem At.step_leaf (h : At place depth e imports s) {l : Leaf} (holds : Holds place l)
    (line : Written l.text) (n : Nat)
    (hread : ∀ v ∈ l.value?, v.number.digits.length ≤ Numeral.maxDigits) :
    Leads place depth (e.map (collected · (l.value?.map (n, ·)).toList))
      (imports ++ (l.import?.map (n, ·)).toList)
      (lengthFindings n line.raw ++ l.findings n s.afterComment)
      (Style.step s (line.raw, n)) := by
  have closed : place.isEnum = false → (s.noteHeader n l.text).openEnum = none :=
    (h.noteLeaf n l).closed
  cases holds with
  | header g =>
      refine h.step_quiet line n rfl ?_ (collect_of_closed n _ (closed rfl))
        (fieldFindings_of_none _ n (fieldName?_header g))
      cases g <;> simp [Leaf.keyword?, headerKeyword]
  | field f =>
      exact h.step_quiet line n rfl (by simp [Leaf.keyword?])
        (collect_of_closed n _ (closed rfl))
        (fieldFindings_of_name (closed rfl) (fieldName?_field f))
  | reserved r =>
      exact h.step_quiet line n rfl (by simp [Leaf.keyword?])
        (collect_of_closed n _ (closed rfl))
        (fieldFindings_of_none _ n (fieldName?_of_no_equals r.no_equals))
  | choice f =>
      exact h.step_quiet line n rfl (by simp [Leaf.keyword?])
        (collect_of_closed n _ (closed rfl))
        (fieldFindings_of_name (closed rfl) (fieldName?_field f))
  | value v =>
      have hstep := h.step_value v line n (hread v rfl)
      rw [← List.append_nil imports] at hstep
      exact hstep
  | unused r =>
      exact h.step_quiet line n rfl (by simp [Leaf.keyword?])
        (collect_of_none n _ (assignment?_of_no_equals r.no_equals))
        (fieldFindings_of_none _ n (fieldName?_of_no_equals r.no_equals))
  | method g =>
      obtain rfl := h.eq_none rfl
      have hstep := h.step_method g line n
      rw [← List.append_nil imports] at hstep
      exact hstep
  | deprecated =>
      exact h.step_quiet line n rfl (by simp [Leaf.keyword?])
        (collect_of_closed n _ (closed rfl))
        (fieldFindings_of_none _ n rfl)

end

theorem Opener.no_brace (o : Opener) : '{' ∉ o.front ∧ '}' ∉ o.front :=
  ⟨(inner_front o).not_mem (by decide), (inner_front o).not_mem (by decide)⟩

theorem step_opening {s u w : Style.State} {o : Opener} (first : Written o.text) {n : Nat}
    {messages enums services : List Finding} (hs : s.inComment = false)
    (hmessage : messageFindings n o.text = messages)
    (henum : (s.noteHeader n o.text).readEnum n o.text = (u, enums))
    (hservice : u.readService n o.text = (w, services)) :
    Style.step s (first.raw, n) =
      ({ w with depth := w.depth + 1, afterComment := false },
        lengthFindings n first.raw ++ (messages ++ (enums ++ services))) := by
  have hbraces : Pass.run Style.State.brace w o.text = ({ w with depth := w.depth + 1 }, []) :=
    run_brace_opening w (Opener.no_brace o).1 (Opener.no_brace o).2
  have hfield : u.fieldFindings n o.text = [] := fieldFindings_of_none u n (fieldName?_opener o)
  rw [Style.step_code hs first.trimmed (isComment_of_firstWord (Opener.firstWord_ne_nil o _))
    (Opener.remark_front o (by decide))]
  simp only [hmessage, henum, hfield, hservice, hbraces, List.append_nil, List.append_assoc]

theorem firstWord_opener_text (o : Opener) : firstWord o.text = (openerKeyword o).toList :=
  firstWord_opener o _

theorem startsWith_opener (o : Opener) :
    startsWith ((openerKeyword o).toList ++ [' ']) o.text := by
  have hled : ∃ rest, o.text = led (openerKeyword o) rest := by
    cases o with
    | block keyword name => exact ⟨_, (led_append _ _ _).symm⟩
    | method g => exact ⟨_, (led_append _ _ _).symm⟩
  obtain ⟨rest, hrest⟩ := hled
  rw [hrest]
  exact startsWith_led _ rest

/-- An opener that another keyword leads is nothing to the readers for this one. -/
theorem word_ne_of_opener {o : Opener} {k : String} (h : openerKeyword o ≠ k) :
    k.toList ≠ firstWord o.text := by
  rw [firstWord_opener_text]
  exact fun he => h (String.toList_injective he).symm

def openedEnum (n : Nat) (depth : Int) : Opener → Option OpenEnum
  | .block .enum name => some { name := name.text, line := n, depth }
  | _ => none

theorem Opens.isSome_openedEnum {place inner : Place} {o : Opener} (h : Opens place o inner)
    (n : Nat) (depth : Int) : (openedEnum n depth o).isSome = inner.isEnum := by
  cases h <;> rfl

theorem Opens.serviceDepth {place inner : Place} {o : Opener} (h : Opens place o inner)
    (ho : openerKeyword o ≠ "service") : place.serviceDepth = inner.serviceDepth := by
  cases h with
  | service name => exact absurd rfl ho
  | _ => rfl

section
variable {place inner : Place} {depth : Int} {e : Option OpenEnum} {imports : List (Nat × Bool)}
  {s : Style.State} (h : At place depth e imports s)
include h

/-- The place inside is entered with the enum and the service that the opener declares. -/
theorem At.enter {o : Opener} (opens : Opens place o inner) {n : Nat} {openEnum : Option OpenEnum}
    {serviceDepth : Option Int} (henum : openEnum = openedEnum n depth o)
    (hservice : serviceDepth = inner.serviceDepth) :
    At inner (depth + 1) (openedEnum n depth o) imports
      { s with openEnum, serviceDepth, depth := s.depth + 1, afterComment := false } where
  fits := opens.fits h.fits
  isEnum := opens.isSome_openedEnum n depth
  depth := congrArg (· + 1) h.depth
  serviceDepth := hservice
  openEnum := henum
  imports := h.imports
  inComment := h.inComment
  overlong := h.overlong

theorem At.readEnum_opener {o : Opener} (opens : Opens place o inner)
    (ho : openerKeyword o ≠ "enum") (n : Nat) : s.readEnum n o.text = (s, []) := by
  have hplace := opens.isEnum_eq_false
  rw [readEnum_of_firstWord s n (word_ne_of_opener ho),
    collect_of_closed n o.text (h.closed hplace)]

theorem At.step_plain {o : Opener} (opens : Opens place o inner) (first : Written o.text) (n : Nat)
    {messages services : List Finding} (hnote : At place depth e imports (s.noteHeader n o.text))
    (ho : openerKeyword o ≠ "enum" ∧ openerKeyword o ≠ "service")
    (hmessage : messageFindings n o.text = messages)
    (hservice : (s.noteHeader n o.text).readService n o.text = (s.noteHeader n o.text, services)) :
    Leads inner (depth + 1) (openedEnum n depth o) imports
      (lengthFindings n first.raw ++ (messages ++ services)) (Style.step s (first.raw, n)) := by
  have hplace := opens.isEnum_eq_false
  have hopened : openedEnum n depth o = none := by
    cases o with
    | method g => rfl
    | block keyword name =>
        cases keyword with
        | enum => exact absurd rfl ho.1
        | _ => rfl
  rw [step_opening first h.inComment hmessage (hnote.readEnum_opener opens ho.1 n) hservice]
  exact ⟨hnote.enter opens ((hnote.closed hplace).trans hopened.symm)
    (hnote.serviceDepth.trans (opens.serviceDepth ho.2)), rfl, rfl⟩

theorem At.step_methodOpener {g : Signature} (opens : Opens place (.method g) inner)
    (first : Written (Opener.method g).text) (n : Nat)
    (hnote : At place depth e imports (s.noteHeader n (Opener.method g).text)) :
    Leads inner (depth + 1) (openedEnum n depth (.method g)) imports
      (lengthFindings n first.raw ++ openerFindings n s.afterComment (.method g))
      (Style.step s (first.raw, n)) := by
  have hopen : (s.noteHeader n (Opener.method g).text).serviceDepth.isSome := by
    rw [hnote.serviceDepth]
    cases opens
    rfl
  have hstart : startsWith ("rpc".toList ++ [' ']) (Opener.method g).text :=
    startsWith_opener (.method g)
  exact h.step_plain opens first n hnote (by simp [openerKeyword])
    (messageFindings_of_firstWord (word_ne_of_opener (by simp [openerKeyword])))
    (readService_of_rpc n (word_ne_of_opener (by simp [openerKeyword])) hopen hstart)

theorem At.step_enum {name : Name} (opens : Opens place (.block .enum name) inner)
    (first : Written (Opener.block .enum name).text) (n : Nat)
    (hnote : At place depth e imports (s.noteHeader n (Opener.block .enum name).text)) :
    Leads inner (depth + 1) (openedEnum n depth (.block .enum name)) imports
      (lengthFindings n first.raw ++ openerFindings n s.afterComment (.block .enum name))
      (Style.step s (first.raw, n)) := by
  have hother : ∀ k, k ≠ "enum" → k.toList ≠ firstWord (Opener.block .enum name).text :=
    fun k hk => word_ne_of_opener (Ne.symm hk)
  have hdeclared : declaredName? "enum" (Opener.block .enum name).text = some name.text :=
    declaredName?_led "enum" name fun c hc => by cases hc; decide
  have hremark : remark (Opener.block .enum name).text = [] :=
    Opener.remark_front (.block .enum name) (by decide)
  have hcode : code (Opener.block .enum name).text = (led "enum" name.text ++ [' ']) ++ ['{'] := by
    rw [code_of_remark (first.trimmed ▸ trim_trim first.raw) hremark, List.append_assoc]
    rfl
  have hbrace : '{' ∉ led "enum" name.text ++ [' '] := by
    rw [List.mem_append, not_or]
    exact ⟨(Opener.no_brace (.block .enum name)).1, by decide⟩
  rw [step_opening first h.inComment (messageFindings_of_firstWord (hother "message" (by decide)))
    (readEnum_of_name _ n hdeclared hcode hbrace)
    (readService_of_firstWord _ n (hother "service" (by decide)) (hother "rpc" (by decide)))]
  refine ⟨hnote.enter opens ?_ (hnote.serviceDepth.trans
    (opens.serviceDepth (by simp [openerKeyword, Keyword.word]))), rfl, ?_⟩
  · rw [hnote.depth, openedEnum]
  · rw [List.nil_append, List.append_nil, openerFindings]

theorem At.step_service {name : Name} (opens : Opens place (.block .service name) inner)
    (first : Written (Opener.block .service name).text) (n : Nat)
    (hnote : At place depth e imports (s.noteHeader n (Opener.block .service name).text)) :
    Leads inner (depth + 1) (openedEnum n depth (.block .service name)) imports
      (lengthFindings n first.raw ++ openerFindings n s.afterComment (.block .service name))
      (Style.step s (first.raw, n)) := by
  have hstart : startsWith ("service".toList ++ [' ']) (Opener.block .service name).text :=
    startsWith_opener (.block .service name)
  rw [step_opening first h.inComment
    (messageFindings_of_firstWord (word_ne_of_opener (by simp [openerKeyword, Keyword.word])))
    (hnote.readEnum_opener opens (by simp [openerKeyword, Keyword.word]) n)
    (readService_of_service _ n hstart)]
  cases opens
  have hzero : depth = 0 := h.fits
  refine ⟨hnote.enter (.service name) (hnote.closed rfl) ?_, rfl, rfl⟩
  rw [hnote.serviceDepth, hnote.depth, hzero]
  rfl

/-- The first line of a block has its findings, and the place inside is entered. -/
theorem At.step_opener {o : Opener} (opens : Opens place o inner) (first : Written o.text)
    (n : Nat) :
    Leads inner (depth + 1) (openedEnum n depth o) imports
      (lengthFindings n first.raw ++ openerFindings n s.afterComment o)
      (Style.step s (first.raw, n)) := by
  have himport : openerKeyword o ≠ "import" := by
    cases opens <;> simp [openerKeyword, Keyword.word]
  have hnote := h.noteHeader n (word_ne_of_opener himport)
  cases o with
  | method g => exact h.step_methodOpener opens first n hnote
  | block keyword name =>
      have hother : ∀ k, k ≠ keyword.word → k.toList ≠ firstWord (Opener.block keyword name).text :=
        fun k hk => word_ne_of_opener (Ne.symm hk)
      cases keyword with
      | message =>
          have hdeclared : declaredName? "message" (Opener.block .message name).text =
              some name.text :=
            declaredName?_led "message" name fun c hc => by cases hc; decide
          have := h.step_plain opens first n hnote (by simp [openerKeyword, Keyword.word])
            (messageFindings_of_name hdeclared)
            (readService_of_firstWord _ n (hother "service" (by decide))
              (hother "rpc" (by decide)))
          rwa [List.append_nil] at this
      | oneof =>
          exact h.step_plain opens first n hnote (by simp [openerKeyword, Keyword.word])
            (messageFindings_of_firstWord (hother "message" (by decide)))
            (readService_of_firstWord _ n (hother "service" (by decide))
              (hother "rpc" (by decide)))
      | enum => exact h.step_enum opens first n hnote
      | service => exact h.step_service opens first n hnote

end

theorem digit_eq_zero_iff {c : Char} (h : c.isDigit) : (digitValue? c).getD 0 = 0 ↔ c = '0' := by
  have hrange : 48 ≤ c.toNat ∧ c.toNat ≤ 57 := by
    simp only [Char.isDigit, Bool.and_eq_true, decide_eq_true_eq, ge_iff_le,
      UInt32.le_iff_toNat_le] at h
    exact h
  have hascii : c.toNat < 128 := by omega
  rw [digitValue?, if_pos hascii, if_pos h, Option.getD_some, ← Char.toNat_inj]
  change c.toNat - 48 = 0 ↔ c.toNat = 48
  omega

theorem value_eq_zero_iff {digits : List Char} (h : ∀ c ∈ digits, c.isDigit) :
    Numeral.value digits = 0 ↔ digits.all (· == '0') := by
  -- the digits before count too: they are zero and stay so
  have go : ∀ n : Nat, digits.foldl (fun n c => 10 * n + (digitValue? c).getD 0) n = 0 ↔
      n = 0 ∧ digits.all (· == '0') := by
    induction digits with
    | nil => intro n; simp
    | cons c digits ih =>
        intro n
        obtain ⟨hc, hdigits⟩ := List.forall_mem_cons.1 h
        have hten : 10 * n = 0 ↔ n = 0 := by omega
        rw [List.foldl_cons, ih hdigits, Nat.add_eq_zero_iff, digit_eq_zero_iff hc, hten]
        simp [and_assoc]
  rw [Numeral.value, go 0]
  simp

theorem firstValueFindings_collected (n : Nat) (depth : Int) (name : Name)
    (values : List (Nat × Value)) :
    firstValueFindings (collected { name := name.text, line := n, depth } values) =
      closerFindings n values (.block .enum name) := by
  cases values with
  | nil => rfl
  | cons value values =>
      obtain ⟨line, v⟩ := value
      have hzero : Numeral.signed v.negative (Numeral.value v.number.digits) = 0 ↔
          v.number.digits.all (· == '0') := by
        rw [← value_eq_zero_iff v.number.decimal, Numeral.signed]
        split <;> simp
      have hdecide : decide (Numeral.signed v.negative (Numeral.value v.number.digits) = 0) =
          v.number.digits.all (· == '0') := by
        rw [Bool.eq_iff_iff, decide_eq_true_eq, hzero]
      rw [closerFindings, isUnspecified, ← hdecide]
      rfl

/-- When a block ends, the service around its place is open, and no other. -/
theorem Opens.filter_serviceDepth {place inner : Place} {o : Opener} (h : Opens place o inner)
    {depth : Int} (hd : place.Fits depth) :
    inner.serviceDepth.filter (· < depth) = place.serviceDepth := by
  cases h with
  | service name =>
      have : depth = 0 := hd
      subst this
      rfl
  | method g =>
      have : depth = 1 := hd
      subst this
      rfl
  | _ => rfl

/-- A closing brace leads back to the place around, with the finding of an enum that ends. -/
theorem At.step_close {place inner : Place} {depth : Int} {imports : List (Nat × Bool)}
    {s : Style.State} {o : Opener} (opens : Opens place o inner) {n : Nat}
    {values : List (Nat × Value)}
    (h : At inner (depth + 1) ((openedEnum n depth o).map (collected · values)) imports s)
    (hd : place.Fits depth) (last : Written ['}']) (m : Nat) :
    Leads place depth none imports (lengthFindings m last.raw ++ closerFindings n values o)
      (Style.step s (last.raw, m)) := by
  have hplace := opens.isEnum_eq_false
  have hdepth : s.depth - 1 = depth := by rw [h.depth, Int.add_sub_cancel]
  have hservice : s.serviceDepth.filter (· < s.depth - 1) = place.serviceDepth := by
    rw [h.serviceDepth, hdepth, opens.filter_serviceDepth hd]
  have hcomment : isComment ['}'] = false := by decide
  rw [step_of_no_word h.inComment last.trimmed (by decide) (by decide), readBraces_close, hcomment]
  have closed : ∀ {t : Style.State} {found : List Finding}, found = closerFindings n values o →
      t = { s with
        depth := s.depth - 1, serviceDepth := s.serviceDepth.filter (· < s.depth - 1),
        openEnum := none } →
      Leads place depth none imports (lengthFindings m last.raw ++ closerFindings n values o)
        ({ t with afterComment := false }, lengthFindings m last.raw ++ found) := by
    rintro t found rfl rfl
    exact ⟨{ h with
      fits := hd, isEnum := hplace.symm, depth := hdepth, serviceDepth := hservice,
      openEnum := rfl }, rfl, rfl⟩
  cases o with
  | method g =>
      have hnone : s.openEnum = none := h.openEnum
      rw [brace_close hnone]
      exact closed rfl (by simp only [hnone])
  | block keyword name =>
      cases keyword with
      | enum =>
          rw [brace_close_enum h.openEnum (by rw [hdepth]; exact Int.le_refl depth)]
          exact closed (firstValueFindings_collected n depth name values) rfl
      | _ =>
          have hnone : s.openEnum = none := h.openEnum
          rw [brace_close hnone]
          exact closed rfl (by simp only [hnone])

end SchemaLint.Document
