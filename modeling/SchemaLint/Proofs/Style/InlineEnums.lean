import SchemaLint.Proofs.Style.Headings

/-! Enums on one line. The values behind the brace of an enum go to it one after another, as they do
from lines of their own, and the last brace of either form ends it. -/

namespace SchemaLint

def Rule.ofEnums : Rule → Bool
  | .enumNamePascalCase | .enumValueUpperSnakeCase | .enumFirstValueUnspecified => true
  | _ => false

namespace Style
open SchemaLint.Text SchemaLint.Line

/-- A name and the number that it has in an enum. -/
structure Member where
  name : List Char
  negative : Bool
  digits : List Char
  name_ne_nil : name ≠ []
  name_word : ∀ c ∈ name, isWord c
  digits_ne_nil : digits ≠ []
  digits_digit : ∀ c ∈ digits, isDigit c
  short : digits.length ≤ Numeral.maxDigits

def Member.text (m : Member) : List Char :=
  m.name ++ " = ".toList ++ if m.negative then '-' :: m.digits else m.digits

def Member.statement (m : Member) : List Char :=
  m.text ++ [';']

def inlineBody (ms : List Member) : List Char :=
  (ms.flatMap fun m => ' ' :: m.statement) ++ " \x7d".toList

def inlineEnum (name : List Char) (ms : List Member) : List Char :=
  "enum ".toList ++ name ++ " \x7b".toList ++ inlineBody ms

def enumLines (name : List Char) (ms : List Member) : List (List Char) :=
  ("enum ".toList ++ name ++ " \x7b".toList) :: ms.map Member.statement ++ [['\x7d']]

def ofEnums (fs : List Finding) : List Finding :=
  fs.filter fun f => f.cause.rule.ofEnums

@[simp] theorem ofEnums_append (fs gs : List Finding) :
    ofEnums (fs ++ gs) = ofEnums fs ++ ofEnums gs :=
  List.filter_append ..

theorem ofEnums_nameFindings {good : List Char → Bool} {cause : List Char → Cause} {n : Nat}
    {name : List Char} (h : (cause name).rule.ofEnums) :
    ofEnums (nameFindings good cause n name) = nameFindings good cause n name := by
  unfold nameFindings
  split
  · rfl
  · simp [ofEnums, h]

theorem ofEnums_enumName (n : Nat) (name : List Char) :
    ofEnums (nameFindings isPascalCase .enumName n name) =
      nameFindings isPascalCase .enumName n name :=
  ofEnums_nameFindings rfl

@[simp] theorem ofEnums_length (n : Nat) (raw : List Char) :
    ofEnums (lengthFindings n raw) = [] := by
  unfold lengthFindings
  split <;> rfl

@[simp] theorem ofEnums_message (n : Nat) (text : List Char) :
    ofEnums (messageFindings n text) = [] := by
  unfold messageFindings
  cases declaredName? "message" text with
  | none => rfl
  | some name =>
      unfold nameFindings
      dsimp only [Option.map_some, Option.getD_some]
      split <;> rfl

@[simp] theorem ofEnums_service (s : State) (n : Nat) (text : List Char) :
    ofEnums (s.readService n text).2 = [] := by
  unfold State.readService
  dsimp only
  split
  · split <;> rfl
  · split
    · dsimp only
      split <;> rfl
    · rfl

@[simp] theorem ofEnums_firstValue (e : OpenEnum) :
    ofEnums (firstValueFindings e) = firstValueFindings e := by
  unfold firstValueFindings
  split
  · rfl
  · split <;> rfl

namespace Member
variable (m : Member)

def value (n : Nat) : EnumValue :=
  ⟨m.name, Numeral.signed m.negative (Numeral.value m.digits), n⟩

theorem text_append (t : List Char) :
    m.text ++ t = m.name ++ ([' '] ++ '=' ::
      ([' '] ++ ((if m.negative then '-' :: m.digits else m.digits) ++ t))) := by
  simp [text]

theorem assignment?_text {t : List Char} (ht : ∀ c ∈ t.head?, isDigit c = false) :
    assignment? (m.text ++ t) = some (⟨m.name, m.negative, m.digits⟩, t) := by
  rw [m.text_append]
  exact assignment?_spelled m.negative m.name_ne_nil m.name_word (by decide) (by decide)
    m.digits_ne_nil m.digits_digit ht

theorem firstWord_text (t : List Char) : firstWord (m.text ++ t) = m.name := by
  rw [m.text_append]
  exact firstWord_append m.name_word fun c hc => by cases hc; decide

theorem declaredName?_text (t : List Char) : declaredName? "enum" (m.text ++ t) = none := by
  rw [m.text_append]
  exact declaredName?_of_equals m.name_word (by decide) (by decide)

theorem text_chars : ∀ c ∈ m.text, isWord c ∨ isDigit c ∨ c ∈ " =-".toList := by
  intro c hc
  rw [text, List.append_assoc, List.mem_append, List.mem_append] at hc
  rcases hc with hname | hmark | hnumber
  · exact .inl (m.name_word c hname)
  · have hmarks : ∀ c ∈ " = ".toList, c ∈ " =-".toList := by decide
    exact .inr (.inr (hmarks c hmark))
  · split at hnumber
    · rcases List.mem_cons.1 hnumber with rfl | hdigit
      · exact .inr (.inr (by decide))
      · exact .inr (.inl (m.digits_digit c hdigit))
    · exact .inr (.inl (m.digits_digit c hnumber))

theorem not_mem_text {c : Char} (hc : ¬ (isWord c ∨ isDigit c ∨ c ∈ " =-".toList)) : c ∉ m.text :=
  fun hm => hc (m.text_chars c hm)

theorem not_mem_statement {c : Char} (hc : ¬ (isWord c ∨ isDigit c ∨ c ∈ " =-;".toList)) :
    c ∉ m.statement := by
  have hmarks : " =-;".toList = " =-".toList ++ [';'] := rfl
  rw [hmarks, List.mem_append, ← or_assoc, ← or_assoc, not_or, or_assoc] at hc
  rw [statement, List.mem_append, not_or]
  exact ⟨m.not_mem_text hc.1, hc.2⟩

theorem startsSolid_text (t : List Char) : StartsSolid (m.text ++ t) := by
  rw [m.text_append, startsSolid_append m.name_ne_nil]
  exact fun c hc => isBlank_of_isWord (m.name_word c (List.mem_of_head? hc))

theorem endsSolid_text : EndsSolid m.text := by
  have hdigits : EndsSolid m.digits := fun c hc =>
    isBlank_of_isDigit (m.digits_digit c (List.mem_of_getLast? hc))
  have hnumber : ∀ s : List Char, EndsSolid (s ++ m.digits) := fun s =>
    (endsSolid_append m.digits_ne_nil).2 hdigits
  unfold text
  split
  · rw [← List.singleton_append, ← List.append_assoc]
    exact hnumber _
  · exact hnumber _

theorem trim_text : trim m.text = m.text :=
  trim_eq_self_iff.2 ⟨m.text.append_nil ▸ m.startsSolid_text [], m.endsSolid_text⟩

end Member

def OpenEnum.add (e : OpenEnum) (values : List EnumValue) : OpenEnum :=
  { e with values := e.values ++ values }

@[simp] theorem OpenEnum.add_nil (e : OpenEnum) : e.add [] = e := by
  simp [add]

@[simp] theorem OpenEnum.add_add (e : OpenEnum) (values more : List EnumValue) :
    (e.add values).add more = e.add (values ++ more) := by
  simp [add]

def State.withEnum (s : State) (e : OpenEnum) : State :=
  { s with openEnum := some e }

theorem State.withEnum_withEnum (s : State) (e o : OpenEnum) :
    (s.withEnum e).withEnum o = s.withEnum o :=
  rfl

theorem State.withEnum_self {s : State} {e : OpenEnum} (he : s.openEnum = some e) :
    s.withEnum e = s := by
  rw [withEnum, ← he]

def memberFindings (m : Member) (n : Nat) : List Finding :=
  nameFindings isUpperSnakeCase .valueName n m.name

theorem ofEnums_member (m : Member) (n : Nat) :
    ofEnums (memberFindings m n) = memberFindings m n :=
  ofEnums_nameFindings rfl

theorem ofEnums_members (ms : List Member) (n : Nat) :
    ofEnums (ms.flatMap (memberFindings · n)) = ms.flatMap (memberFindings · n) := by
  rw [ofEnums, List.filter_flatMap]
  exact congrArg (ms.flatMap ·) (funext fun m => ofEnums_member m n)

theorem collect_member {s : State} {e : OpenEnum} (he : s.openEnum = some e) (m : Member) (n : Nat)
    {t : List Char} (ht : ∀ c ∈ t.head?, isDigit c = false) :
    State.collect n s (m.text ++ t) =
      (s.withEnum (e.add [m.value n]), memberFindings m n) :=
  collect_of_some he (m.assignment?_text ht) m.short

theorem run_collect_members {s : State} {e : OpenEnum} (he : s.openEnum = some e)
    (ms : List Member) (n : Nat) :
    Pass.run (State.collect n) s (ms.map Member.text) =
      (s.withEnum (e.add (ms.map (·.value n))), ms.flatMap (memberFindings · n)) := by
  induction ms generalizing s e with
  | nil =>
      rw [List.map_nil, List.map_nil, Pass.run_nil, OpenEnum.add_nil, State.withEnum_self he]
      rfl
  | cons m ms ih =>
      have hm := collect_member he m n (t := []) nofun
      rw [List.append_nil] at hm
      rw [List.map_cons, Pass.run_cons, hm, ih rfl, OpenEnum.add_add,
        State.withEnum_withEnum]
      rfl

theorem statements_inlineBody (ms : List Member) :
    ((inlineBody ms).splitOn ';').map trim = ms.map Member.text ++ [['}']] := by
  induction ms with
  | nil => decide
  | cons m ms ih =>
      have hmark : ';' ∉ ' ' :: m.text :=
        List.not_mem_cons_of_ne_of_not_mem (by decide) (m.not_mem_text (by decide))
      have hbody : inlineBody (m :: ms) = (' ' :: m.text) ++ ';' :: inlineBody ms := by
        simp [inlineBody, Member.statement]
      have htrim : trim (' ' :: m.text) = m.text :=
        (trim_append_left (g := [' ']) (by decide)).trans m.trim_text
      rw [hbody, List.splitOn_append_cons_self_of_not_mem hmark, List.map_cons, htrim, ih]
      rfl

theorem not_mem_members (ms : List Member) {c : Char}
    (hc : ¬ (isWord c ∨ isDigit c ∨ c ∈ " =-;".toList)) :
    c ∉ ms.flatMap fun m => ' ' :: m.statement := by
  intro hm
  obtain ⟨m, -, hm⟩ := List.mem_flatMap.1 hm
  rcases List.mem_cons.1 hm with rfl | hm
  · exact hc (.inr (.inr (by decide)))
  · exact m.not_mem_statement hc hm

theorem run_brace_inlineBody {s : State} {e : OpenEnum} (he : s.openEnum = some e)
    (hd : s.depth - 1 ≤ e.depth) (ms : List Member) :
    Pass.run State.brace s (inlineBody ms) =
      ({ s with
          depth := s.depth - 1, serviceDepth := s.serviceDepth.filter (· < s.depth - 1),
          openEnum := none },
        firstValueFindings e) := by
  have hopen : '\x7b' ∉ ms.flatMap fun m => ' ' :: m.statement :=
    not_mem_members ms (by decide)
  have hclose : '\x7d' ∉ ms.flatMap fun m => ' ' :: m.statement :=
    not_mem_members ms (by decide)
  have hspace : s.brace ' ' = (s, []) := rfl
  have hlast : " \x7d".toList = [' ', '\x7d'] := rfl
  rw [inlineBody, Pass.run_append, run_brace_quiet s hopen hclose, hlast, Pass.run_cons, hspace,
    Pass.run_cons, brace_close_enum he hd, Pass.run_nil, List.append_nil]
  rfl

/-- The pass stands in an enum. -/
structure State.Within (s : State) (e : OpenEnum) (digits : Option Nat) : Prop where
  inComment : s.inComment = false
  openEnum : s.openEnum = some e
  depth : s.depth = e.depth + 1
  overlong : s.overlong = digits

/-- The pass has left an enum. -/
structure State.Left (s : State) (depth : Int) (digits : Option Nat) : Prop where
  openEnum : s.openEnum = none
  depth : s.depth = depth
  overlong : s.overlong = digits

section
variable {s : State} {e : OpenEnum} {digits : Option Nat} {l : List Char} (h : s.Within e digits)
include h

theorem State.Within.step_member (m : Member) (n : Nat) (hl : trim l = m.statement) :
    (step s (l, n)).1.Within (e.add [m.value n]) digits ∧
      ofEnums (step s (l, n)).2 = memberFindings m n := by
  have hword : firstWord m.statement ≠ [] := m.firstWord_text _ ▸ m.name_ne_nil
  have hremark : remark m.statement = [] := remark_of_no_slash (m.not_mem_statement (by decide))
  have henum : ∀ u : State, u.openEnum = some e → u.readEnum n m.statement =
      (u.withEnum (e.add [m.value n]), memberFindings m n) := by
    intro u hu
    rw [State.readEnum, Member.statement, m.declaredName?_text]
    exact collect_member hu m n fun c hc => by cases hc; decide
  have hfield : ∀ u : State, u.openEnum.isSome → u.fieldFindings n m.statement = [] :=
    fun u hu => fieldFindings_of_open _ hu
  have hbraces : ∀ u : State, Pass.run State.brace u m.statement = (u, []) := fun u =>
    run_brace_quiet u (m.not_mem_statement (by decide)) (m.not_mem_statement (by decide))
  rw [step_code h.inComment hl (isComment_of_firstWord hword) hremark]
  have hopen : (s.noteHeader n m.statement).openEnum = some e := h.openEnum
  dsimp only
  rw [henum _ hopen, hbraces, hfield _ rfl]
  obtain ⟨depth, hservice⟩ := readService_changes
    ((s.noteHeader n m.statement).withEnum (e.add [m.value n])) n m.statement
  refine ⟨?_, ?_⟩
  · rw [hservice]
    exact ⟨h.inComment, rfl, h.depth, h.overlong⟩
  · simp only [ofEnums_append, ofEnums_length, ofEnums_message, ofEnums_service, ofEnums_member,
      List.nil_append, List.append_nil]

theorem State.Within.step_close (n : Nat) (hl : trim l = ['\x7d']) :
    (step s (l, n)).1.Left e.depth digits ∧
      ofEnums (step s (l, n)).2 = firstValueFindings e := by
  have hd : s.depth - 1 ≤ e.depth := by rw [h.depth]; omega
  rw [step_of_no_word h.inComment hl (by decide) (by decide), readBraces_close,
    brace_close_enum h.openEnum hd]
  refine ⟨⟨rfl, ?_, h.overlong⟩, by simp⟩
  rw [h.depth]
  exact Int.add_sub_cancel ..

theorem State.Within.scan_members {ms : List Member} {ls : List (List Char)}
    (hls : ls.map trim = ms.map Member.statement) (n : Nat) :
    (scan s (ls.zipIdx n)).1.Within (e.add ((ms.zipIdx n).map fun p => p.1.value p.2)) digits ∧
      ofEnums (scan s (ls.zipIdx n)).2 =
        (ms.zipIdx n).flatMap fun p => memberFindings p.1 p.2 := by
  induction ms generalizing s e ls n with
  | nil =>
      obtain rfl := List.map_eq_nil_iff.1 hls
      exact ⟨e.add_nil.symm ▸ h, rfl⟩
  | cons m ms ih =>
      obtain ⟨l, ls, rfl, hl, hls⟩ := List.map_eq_cons_iff.1 hls
      obtain ⟨hwithin, hfound⟩ := h.step_member m n hl
      obtain ⟨hrest, hfounds⟩ := ih hwithin hls (n + 1)
      rw [OpenEnum.add_add] at hrest
      rw [scan_cons, ofEnums_append, hfound, hfounds]
      exact ⟨hrest, rfl⟩

end

def newEnum (name : List Char) (n : Nat) (depth : Int) : OpenEnum :=
  { name, line := n, depth }

/-- The findings of an enum at a line, with its members on theirs. -/
def enumFindings (name : List Char) (n : Nat) (ms : List (Member × Nat)) : List Finding :=
  nameFindings isPascalCase .enumName n name ++ (ms.flatMap fun p => memberFindings p.1 p.2) ++
    firstValueFindings ((newEnum name n 0).add (ms.map fun p => p.1.value p.2))

theorem firstValueFindings_newEnum (name : List Char) (n : Nat) (depth : Int)
    (values : List EnumValue) :
    firstValueFindings ((newEnum name n depth).add values) =
      firstValueFindings ((newEnum name n 0).add values) :=
  rfl

section
variable {s : State} (hs : s.inComment = false) {name : List Char} (hn : name ≠ [])
  (hw : ∀ c ∈ name, isWord c) (ms : List Member)

def enumHeading : Heading :=
  ⟨.enum, name, by decide, hn, hw⟩

include hn hw

theorem inlineEnum_eq :
    inlineEnum name ms = (enumHeading hn hw).text ++ ([' '] ++ '\x7b' :: inlineBody ms) := by
  change "enum ".toList ++ name ++ " \x7b".toList ++ inlineBody ms = _
  simp [enumHeading, Heading.text, BlockKind.word]

theorem firstWord_inlineEnum : firstWord (inlineEnum name ms) = "enum".toList := by
  rw [inlineEnum_eq hn hw ms]
  exact (enumHeading hn hw).firstWord _

theorem remark_inlineEnum : remark (inlineEnum name ms) = [] := by
  have hmembers : '/' ∉ ms.flatMap fun m => ' ' :: m.statement := not_mem_members ms (by decide)
  refine remark_of_no_slash ?_
  rw [inlineEnum_eq hn hw ms, inlineBody]
  simp only [List.mem_append, List.mem_cons, not_or]
  exact ⟨(enumHeading hn hw).not_mem_text (by decide), by decide, by decide, hmembers, by decide⟩

theorem readEnum_inlineEnum (u : State) (n : Nat)
    (hcode : code (inlineEnum name ms) = inlineEnum name ms) :
    u.readEnum n (inlineEnum name ms) =
      (u.withEnum ((newEnum name n u.depth).add (ms.map (·.value n))),
        nameFindings isPascalCase .enumName n name ++ ms.flatMap (memberFindings · n)) := by
  have htext := inlineEnum_eq hn hw ms
  have hname : declaredName? "enum" (inlineEnum name ms) = some name := by
    rw [htext]
    exact (enumHeading hn hw).declaredName?_append fun c hc => by cases hc; decide
  have hopen : '\x7b' ∉ (enumHeading hn hw).text ++ [' '] := by
    rw [List.mem_append, not_or]
    exact ⟨(enumHeading hn hw).not_mem_text (by decide), by decide⟩
  have hbody : until? '\x7b' (code (inlineEnum name ms)) =
      some ((enumHeading hn hw).text ++ [' '], inlineBody ms) := by
    rw [hcode, htext]
    exact until?_eq_some_iff.2 ⟨hopen, (List.append_assoc ..).symm⟩
  have hlast : ∀ w : State, State.collect n w ['\x7d'] = (w, []) := fun w =>
    collect_of_none n w (by decide)
  rw [State.readEnum, hname]
  dsimp only
  rw [State.openEnumAt, hbody]
  dsimp only
  rw [statements_inlineBody, Pass.run_append, run_collect_members rfl, Pass.run_cons, Pass.run_nil,
    hlast, List.append_nil, List.append_nil]
  rfl

theorem run_brace_inlineEnum {u : State} {e : OpenEnum} (he : u.openEnum = some e)
    (hd : u.depth = e.depth) :
    (Pass.run State.brace u (inlineEnum name ms)).1.Left e.depth u.overlong ∧
      (Pass.run State.brace u (inlineEnum name ms)).2 = firstValueFindings e := by
  have hopen : '\x7b' ∉ (enumHeading hn hw).text := (enumHeading hn hw).not_mem_text (by decide)
  have hclose : '\x7d' ∉ (enumHeading hn hw).text := (enumHeading hn hw).not_mem_text (by decide)
  have hspace : u.brace ' ' = (u, []) := rfl
  have hbrace : u.brace '\x7b' = ({ u with depth := u.depth + 1 }, []) := rfl
  have hdepth : u.depth + 1 - 1 = e.depth := by omega
  have hbody := run_brace_inlineBody (s := { u with depth := u.depth + 1 }) he hdepth.le ms
  rw [inlineEnum_eq hn hw ms, Pass.run_append, run_brace_quiet u hopen hclose,
    List.singleton_append, Pass.run_cons, hspace, Pass.run_cons, hbrace, hbody]
  exact ⟨⟨rfl, hdepth, rfl⟩, rfl⟩

include hs

theorem step_enumHeading {l : List Char} (hl : trim l = "enum ".toList ++ name ++ " \x7b".toList)
    (n : Nat) :
    (step s (l, n)).1.Within (newEnum name n s.depth) s.overlong ∧
      ofEnums (step s (l, n)).2 = nameFindings isPascalCase .enumName n name := by
  have hspace : Blank [' '] := by decide
  have htext : trim l = (enumHeading hn hw).text ++ ([' '] ++ ['\x7b']) := by
    rw [hl, Heading.text_append]
    simp [enumHeading, BlockKind.word]
  rw [step_heading (enumHeading hn hw) (.brace hspace) hs htext, count_brace hspace]
  refine ⟨⟨hs, rfl, rfl, rfl⟩, ?_⟩
  rw [ofEnums_append, ofEnums_length]
  simpa [headingFindings, enumHeading] using ofEnums_enumName n name

theorem scan_enumLines {ls : List (List Char)} (hls : ls.map trim = enumLines name ms) (n : Nat) :
    (scan s (ls.zipIdx n)).1.Left s.depth s.overlong ∧
      ofEnums (scan s (ls.zipIdx n)).2 = enumFindings name n (ms.zipIdx (n + 1)) := by
  rw [enumLines, List.cons_append] at hls
  obtain ⟨first, rest, rfl, hfirst, hrest⟩ := List.map_eq_cons_iff.1 hls
  obtain ⟨members, last, rfl, hmembers, hlast⟩ := List.map_eq_append_iff.1 hrest
  obtain ⟨l, none, rfl, hl, hnone⟩ := List.map_eq_cons_iff.1 hlast
  obtain rfl := List.map_eq_nil_iff.1 hnone
  obtain ⟨hopen, hname⟩ := step_enumHeading hs hn hw hfirst n
  obtain ⟨hwithin, hvalues⟩ := hopen.scan_members hmembers (n + 1)
  obtain ⟨hleft, hend⟩ := hwithin.step_close (n + 1 + members.length) hl
  have hsingle : ∀ (t : State) (k : Nat), scan t ([l].zipIdx k) = step t (l, k) := fun t k =>
    (scan_cons t l [] k).trans (congrArg (Prod.mk _) (List.append_nil _))
  rw [scan_cons, scan_append, hsingle]
  refine ⟨hleft, ?_⟩
  rw [ofEnums_append, ofEnums_append, hname, hvalues, hend, firstValueFindings_newEnum,
    ← List.append_assoc]
  rfl

theorem step_inlineEnum {l : List Char} (hl : trim l = inlineEnum name ms) (n : Nat) :
    (step s (l, n)).1.Left s.depth s.overlong ∧
      ofEnums (step s (l, n)).2 = enumFindings name n (ms.map (·, n)) := by
  have hremark := remark_inlineEnum hn hw ms
  have hfirst := firstWord_inlineEnum hn hw ms
  have hcomment : isComment (inlineEnum name ms) = false :=
    isComment_of_firstWord (by rw [hfirst]; decide)
  have hcode : code (inlineEnum name ms) = inlineEnum name ms :=
    code_of_remark (hl ▸ trim_trim l) hremark
  have hservice : ∀ u : State, u.readService n (inlineEnum name ms) = (u, []) := fun u =>
    readService_of_firstWord u n (by rw [hfirst]; decide) (by rw [hfirst]; decide)
  have hfield : ∀ u : State, u.openEnum.isSome → u.fieldFindings n (inlineEnum name ms) = [] :=
    fun u hu => fieldFindings_of_open _ hu
  rw [step_code hs hl hcomment hremark]
  dsimp only
  rw [readEnum_inlineEnum hn hw ms _ n hcode, hservice, hfield _ rfl]
  obtain ⟨hleft, hend⟩ := run_brace_inlineEnum hn hw ms
    (u := (s.noteHeader n (inlineEnum name ms)).withEnum
      ((newEnum name n s.depth).add (ms.map (·.value n)))) rfl rfl
  have hvalues : (ms.map (·, n)).map (fun p => p.1.value p.2) = ms.map (·.value n) := List.map_map
  have hfound : (ms.map (·, n)).flatMap (fun p => memberFindings p.1 p.2) =
      ms.flatMap (memberFindings · n) := List.flatMap_map ..
  refine ⟨⟨hleft.openEnum, hleft.depth, hleft.overlong⟩, ?_⟩
  have hdepth : (s.noteHeader n (inlineEnum name ms)).depth = s.depth := rfl
  rw [hdepth, hend, enumFindings, hvalues, hfound, firstValueFindings_newEnum]
  simp only [ofEnums_append, ofEnums_length, ofEnums_message, ofEnums_enumName, ofEnums_members,
    ofEnums_firstValue, List.nil_append, List.append_nil]

end

theorem trim_inlineEnum (name : List Char) (ms : List Member) :
    trim (inlineEnum name ms) = inlineEnum name ms := by
  have hstart : StartsSolid (inlineEnum name ms) := startsSolid_cons.2 (by decide)
  have hbody : EndsSolid (inlineBody ms) := (endsSolid_append (by decide)).2 (by decide)
  have hend : EndsSolid (inlineEnum name ms) :=
    (endsSolid_append (by simp [inlineBody])).2 hbody
  exact trim_eq_self_iff.2 ⟨hstart, hend⟩

theorem map_trim_enumLines (name : List Char) (ms : List Member) :
    (enumLines name ms).map trim = enumLines name ms := by
  have hstart : StartsSolid ("enum ".toList ++ name ++ " \x7b".toList) :=
    startsSolid_cons.2 (by decide)
  have hend : EndsSolid ("enum ".toList ++ name ++ " \x7b".toList) :=
    (endsSolid_append (by decide)).2 (by decide)
  have hmember : ∀ m : Member, trim m.statement = m.statement := fun m =>
    trim_eq_self_iff.2 ⟨m.startsSolid_text _, (endsSolid_append (by decide)).2 (by decide)⟩
  have hclose : trim ['\x7d'] = ['\x7d'] := by decide
  simp only [enumLines, List.map_append, List.map_cons, List.map_nil, List.map_map, hclose,
    trim_eq_self_iff.2 ⟨hstart, hend⟩, Function.comp_def, hmember]

theorem enumFindings_renumber (f : Nat → Nat) (name : List Char) (n : Nat)
    (ms : List (Member × Nat)) :
    (enumFindings name n ms).map (Finding.renumber f) =
      enumFindings name (f n) (ms.map (Prod.map id f)) := by
  have henum : (newEnum name (f n) 0).add ((ms.map (Prod.map id f)).map fun p => p.1.value p.2) =
      ((newEnum name n 0).add (ms.map fun p => p.1.value p.2)).renumber f := by
    simp [newEnum, OpenEnum.add, OpenEnum.renumber, Member.value, EnumValue.renumber]
  have hmembers : (ms.map (Prod.map id f)).flatMap (fun p => memberFindings p.1 p.2) =
      (ms.flatMap fun p => memberFindings p.1 p.2).map (Finding.renumber f) := by
    rw [List.flatMap_map, List.map_flatMap]
    exact congrArg (ms.flatMap ·) (funext fun p => nameFindings_renumber ..)
  rw [enumFindings, enumFindings, henum, hmembers, firstValueFindings_renumber,
    nameFindings_renumber, List.map_append, List.map_append]

/-- What is said of the first value is said at the line of the enum. -/
theorem line_of_firstValue {name : List Char} {n : Nat} {ms : List (Member × Nat)} {f : Finding}
    (hf : f ∈ enumFindings name n ms) (hrule : f.cause.rule = .enumFirstValueUnspecified) :
    f.line = n := by
  have hname : ∀ {good cause k name}, f ∈ nameFindings good cause k name →
      (cause name).rule ≠ .enumFirstValueUnspecified → False := by
    intro good cause k name hm hne
    unfold nameFindings at hm
    split at hm
    · cases hm
    · rw [List.mem_singleton.1 hm] at hrule
      exact hne hrule
  rcases List.mem_append.1 hf with hf | hf
  · rcases List.mem_append.1 hf with hf | hf
    · exact (hname hf nofun).elim
    · obtain ⟨p, -, hp⟩ := List.mem_flatMap.1 hf
      exact (hname hp nofun).elim
  · unfold firstValueFindings at hf
    split at hf
    · cases hf
    · split at hf
      · cases hf
      · rw [List.mem_singleton.1 hf]
        rfl

/-- An enum on one line has the findings on its name, on the names of its values and on its first
value, in this order. It has the same ones with a line for each value; only the numbers of their
lines differ, and what is said of the first value is said at the first line. Either way the pass has
left the enum, and the one that was open before it, at the depth where it was, with no number that
is too long. -/
theorem inlineEnum_as_lines {s : State} (hs : s.inComment = false) {name : List Char}
    (hn : name ≠ []) (hw : ∀ c ∈ name, isWord c) (ms : List Member) {l : List Char}
    {ls : List (List Char)} (hl : trim l = trim (inlineEnum name ms))
    (hls : ls.map trim = (enumLines name ms).map trim) (n k : Nat) :
    ofEnums (step s (l, n)).2 = enumFindings name n (ms.map (·, n)) ∧
      (ofEnums (scan s (ls.zipIdx k)).2).map (Finding.renumber fun _ => n) =
        ofEnums (step s (l, n)).2 ∧
      (∀ f ∈ (scan s (ls.zipIdx k)).2, f.cause.rule = .enumFirstValueUnspecified → f.line = k) ∧
      (step s (l, n)).1.Left s.depth s.overlong ∧
      (scan s (ls.zipIdx k)).1.Left s.depth s.overlong := by
  rw [trim_inlineEnum] at hl
  rw [map_trim_enumLines] at hls
  obtain ⟨hleft, hone⟩ := step_inlineEnum hs hn hw ms hl n
  obtain ⟨hlast, hmany⟩ := scan_enumLines hs hn hw ms hls k
  have hlines : (ms.zipIdx (k + 1)).map (Prod.map id fun _ => n) = ms.map (·, n) := by
    have hfst : (ms.zipIdx (k + 1)).map Prod.fst = ms := List.zipIdx_map_fst ..
    calc (ms.zipIdx (k + 1)).map (Prod.map id fun _ => n)
        = ((ms.zipIdx (k + 1)).map Prod.fst).map (·, n) := by
          rw [List.map_map]
          rfl
      _ = ms.map (·, n) := by rw [hfst]
  refine ⟨hone, by rw [hone, hmany, enumFindings_renumber, hlines], fun f hf hrule => ?_, hleft,
    hlast⟩
  have hof : f ∈ ofEnums (scan s (ls.zipIdx k)).2 :=
    List.mem_filter.2 ⟨hf, by rw [hrule]; rfl⟩
  rw [hmany] at hof
  exact line_of_firstValue hof hrule

def darkRed : Member :=
  ⟨"DARK_RED".toList, true, ['1'], by decide, by decide, by decide, by decide, by decide⟩

def blue : Member :=
  ⟨"blue".toList, false, "02".toList, by decide, by decide, by decide, by decide, by decide⟩

/-- Inside a service, behind an enum that did not end. -/
def inService : State :=
  { depth := 3, serviceDepth := some 1,
    openEnum := some { name := "Old".toList, line := 2, depth := 5 } }

def colourLine : List Char :=
  "  enum colour \x7b DARK_RED = -1; blue = 02; \x7d".toList

def colourLines : List (List Char) :=
  ["  enum colour \x7b", "    DARK_RED = -1;", "    blue = 02;", "  \x7d"].map String.toList

theorem inlineEnum_as_lines_colours :
    inService.inComment = false ∧ "colour".toList ≠ [] ∧ (∀ c ∈ "colour".toList, isWord c) ∧
      trim colourLine = trim (inlineEnum "colour".toList [darkRed, blue]) ∧
      colourLines.map trim = (enumLines "colour".toList [darkRed, blue]).map trim ∧
      ofEnums (step inService (colourLine, 7)).2 =
        [{ line := 7, cause := .enumName "colour".toList },
          { line := 7, cause := .valueName "blue".toList },
          { line := 7, cause := .firstValue "colour".toList }] ∧
      (ofEnums (scan inService (colourLines.zipIdx 9)).2).map (Finding.renumber fun _ => 7) =
        ofEnums (step inService (colourLine, 7)).2 ∧
      (step inService (colourLine, 7)).1.Left 3 none ∧
      (scan inService (colourLines.zipIdx 9)).1.Left 3 none := by
  have hline : trim colourLine = trim (inlineEnum "colour".toList [darkRed, blue]) := by decide
  have hlines : colourLines.map trim = (enumLines "colour".toList [darkRed, blue]).map trim := by
    decide
  have hword : ∀ c ∈ "colour".toList, isWord c := by decide
  obtain ⟨hfound, hsame, -, hone, hmany⟩ :=
    inlineEnum_as_lines (s := inService) rfl (by decide) hword [darkRed, blue] hline hlines 7 9
  exact ⟨rfl, by decide, hword, hline, hlines, hfound.trans (by decide), hsame, hone, hmany⟩

end Style

end SchemaLint
