import SchemaLint.Proofs.Line.Assignment
import SchemaLint.Proofs.Line.FirstWord
import SchemaLint.Proofs.Style.Nesting
import SchemaLint.Source

/-! The numbers that the style pass reads. They are the digits assigned to the values of open
enums, and the only thing in a source that can keep validation from its report: a run of digits
that is too long to be read. -/

namespace SchemaLint.Style
open SchemaLint.Text SchemaLint.Line

/-- The statements that follow the brace on the first line of an enum. -/
def inlineStatements (trimmed : List Char) : List (List Char) :=
  match until? '{' (code trimmed) with
  | some (_, body) => (body.splitOn ';').map trim
  | none => []

def numeral? (text : List Char) : Option (List Char) :=
  (assignment? text).map fun (a, _) => a.digits

/-- The texts of a line that are read as values: the statements of an enum that starts here, or
the line as a whole if an enum is open. -/
def State.valueTexts (s : State) (trimmed : List Char) : List (List Char) :=
  match declaredName? "enum" trimmed with
  | some _ => inlineStatements trimmed
  | none => if s.openEnum.isSome then [trimmed] else []

def State.numerals (s : State) (raw : List Char) : List (List Char) :=
  if s.inComment then [] else (s.valueTexts (trim raw)).filterMap numeral?

/-- The numbers of all lines from line `n` on. -/
def numeralsFrom (s : State) (n : Nat) : List (List Char) → List (List Char)
  | [] => []
  | l :: ls => s.numerals l ++ numeralsFrom (step s (l, n)).1 (n + 1) ls

/-- The length of the first run of digits that is too long to be read. -/
def firstOverlong (runs : List (List Char)) : Option Nat :=
  (runs.map List.length).find? (Numeral.maxDigits < ·)

theorem firstOverlong_append (runs more : List (List Char)) :
    firstOverlong (runs ++ more) = (firstOverlong runs).or (firstOverlong more) := by
  rw [firstOverlong, List.map_append, List.find?_append]
  rfl

theorem firstOverlong_eq_none_iff {runs : List (List Char)} :
    firstOverlong runs = none ↔ ∀ run ∈ runs, run.length ≤ Numeral.maxDigits := by
  simp [firstOverlong]

theorem collect_of_open (n : Nat) {s : State} (h : s.openEnum.isSome) (text : List Char) :
    (State.collect n s text).1.openEnum.isSome ∧
      (State.collect n s text).1.overlong =
        s.overlong.or (firstOverlong (numeral? text).toList) := by
  obtain ⟨e, he⟩ := Option.isSome_iff_exists.1 h
  rw [State.collect, he, numeral?]
  cases assignment? text with
  | none => exact ⟨h, (Option.or_none ..).symm⟩
  | some found =>
      refine ⟨rfl, congrArg (s.overlong.or ·) ?_⟩
      by_cases hlong : Numeral.maxDigits < found.1.digits.length <;> simp [firstOverlong, hlong]

theorem overlong_collectAll (n : Nat) {s : State} (h : s.openEnum.isSome)
    (texts : List (List Char)) :
    (Pass.run (State.collect n) s texts).1.overlong =
      s.overlong.or (firstOverlong (texts.filterMap numeral?)) := by
  induction texts generalizing s with
  | nil => exact (Option.or_none ..).symm
  | cons text texts ih =>
      obtain ⟨hopen, hlong⟩ := collect_of_open n h text
      have hruns : (text :: texts).filterMap numeral? =
          (numeral? text).toList ++ texts.filterMap numeral? := by
        cases ht : numeral? text <;> simp [ht]
      rw [Pass.run_cons, ih hopen, hlong, hruns, firstOverlong_append, Option.or_assoc]

theorem overlong_readEnum (s : State) (n : Nat) (trimmed : List Char) :
    (s.readEnum n trimmed).1.overlong =
      s.overlong.or (firstOverlong ((s.valueTexts trimmed).filterMap numeral?)) := by
  rw [State.readEnum, State.valueTexts]
  cases declaredName? "enum" trimmed with
  | some name => exact overlong_collectAll n rfl (inlineStatements trimmed)
  | none =>
      by_cases hopen : s.openEnum.isSome
      case pos =>
          have hall := overlong_collectAll n hopen [trimmed]
          rw [Pass.run_cons, Pass.run_nil] at hall
          simpa only [hopen, if_true] using hall
      case neg =>
          have hclosed := Option.not_isSome_iff_eq_none.1 hopen
          simp [State.collect, hclosed, firstOverlong]

theorem overlong_readService (s : State) (n : Nat) (trimmed : List Char) :
    (s.readService n trimmed).1.overlong = s.overlong := by
  obtain ⟨depth, h⟩ := readService_changes s n trimmed
  rw [h]

theorem overlong_readBraces (s : State) (trimmed : List Char) :
    (s.readBraces trimmed).1.overlong = s.overlong := by
  obtain ⟨depth, service, e, h⟩ := readBraces_changes s trimmed
  rw [h]

/-- One line keeps the fault that there is, and else has that of its first overlong number. -/
theorem overlong_step (s : State) (l : List Char) (n : Nat) :
    (step s (l, n)).1.overlong = s.overlong.or (firstOverlong (s.numerals l)) := by
  rw [step, State.numerals]
  dsimp only
  split
  case isTrue => exact (Option.or_none ..).symm
  case isFalse =>
      dsimp only
      rw [overlong_readBraces, overlong_readService, overlong_readEnum]
      rfl

theorem overlong_scan (s : State) (ls : List (List Char)) (n : Nat) :
    (scan s (ls.zipIdx n)).1.overlong =
      s.overlong.or (firstOverlong (numeralsFrom s n ls)) := by
  induction ls generalizing s n with
  | nil => exact (Option.or_none ..).symm
  | cons l ls ih =>
      rw [scan_cons, ih, overlong_step, numeralsFrom, firstOverlong_append, Option.or_assoc]

theorem digits?_spec {s run rest : List Char} (h : digits? s = some (run, rest)) :
    run <+: s ∧ run ≠ [] ∧ ∀ c ∈ run, isDigit c := by
  obtain ⟨hn, rfl, -⟩ := run?_eq_some_iff.1 h
  exact ⟨List.takeWhile_prefix _, hn, fun c hc => List.mem_takeWhile_imp hc⟩

theorem numeral?_spec {text run : List Char} (h : numeral? text = some run) :
    run <:+: text ∧ run ≠ [] ∧ ∀ c ∈ run, isDigit c := by
  obtain ⟨found, ha, rfl⟩ := Option.map_eq_some_iff.1 h
  obtain ⟨⟨name, rest⟩, hname, hassign⟩ := Option.bind_eq_some_iff.1 ha
  obtain ⟨r, hequals, hnumber⟩ := Option.bind_eq_some_iff.1 hassign
  have hrest : rest <:+ text := ⟨name, (word?_eq_some_iff.1 hname).2.2.2.symm⟩
  obtain ⟨g, k, -, -, -, he⟩ := afterEquals?_eq_some_iff.1 hequals
  have hr : r <:+ rest := ⟨g ++ '=' :: k, by simp [he]⟩
  have htext : r <:+: text := (hr.trans hrest).isInfix
  split at hnumber
  case h_1 r' =>
      obtain ⟨⟨run, after⟩, hd, rfl⟩ := Option.map_eq_some_iff.1 hnumber
      obtain ⟨hpre, hspec⟩ := digits?_spec hd
      exact ⟨hpre.isInfix.trans ((List.suffix_cons '-' r').isInfix.trans htext), hspec⟩
  case h_2 =>
      obtain ⟨⟨run, after⟩, hd, rfl⟩ := Option.map_eq_some_iff.1 hnumber
      obtain ⟨hpre, hspec⟩ := digits?_spec hd
      exact ⟨hpre.isInfix.trans htext, hspec⟩

theorem trim_isInfix (s : List Char) : trim s <:+: s := by
  obtain ⟨g, k, -, -, h⟩ := exists_trim s
  exact ⟨g, k, h.symm⟩

theorem isInfix_intercalate (sep : List Char) {part : List Char} {parts : List (List Char)}
    (h : part ∈ parts) : part <:+: sep.intercalate parts := by
  induction parts with
  | nil => cases h
  | cons first parts ih =>
      cases parts with
      | nil => simp [List.mem_singleton.1 h]
      | cons second parts =>
          rw [List.intercalate_cons_cons]
          rcases List.mem_cons.1 h with rfl | hrest
          · rw [List.append_assoc]
            exact (List.prefix_append ..).isInfix
          · exact (ih hrest).trans (List.suffix_append ..).isInfix

theorem isInfix_of_mem_splitOn {mark : Char} {part s : List Char} (h : part ∈ s.splitOn mark) :
    part <:+: s := by
  have hpart := isInfix_intercalate [mark] h
  rwa [List.intercalate_splitOn] at hpart

theorem valueTexts_isInfix {s : State} {trimmed text : List Char}
    (h : text ∈ s.valueTexts trimmed) : text <:+: trimmed := by
  rw [State.valueTexts] at h
  split at h
  case h_1 =>
      rw [inlineStatements] at h
      split at h
      case h_1 front body hbody =>
          obtain ⟨part, hpart, rfl⟩ := List.mem_map.1 h
          have hcode : body <:+ code trimmed :=
            ⟨front ++ ['{'], by simp [(until?_eq_some_iff.1 hbody).2]⟩
          exact (trim_isInfix part).trans <| (isInfix_of_mem_splitOn hpart).trans <|
            hcode.isInfix.trans <| (trim_isInfix _).trans (beforeComment_isPrefix trimmed).isInfix
      case h_2 => cases h
  case h_2 =>
      split at h
      · exact List.mem_singleton.1 h ▸ List.infix_rfl
      · cases h

theorem numerals_spec {s : State} {raw run : List Char} (h : run ∈ s.numerals raw) :
    run <:+: raw ∧ run ≠ [] ∧ ∀ c ∈ run, isDigit c := by
  rw [State.numerals] at h
  split at h
  · cases h
  · obtain ⟨text, htext, hrun⟩ := List.mem_filterMap.1 h
    obtain ⟨hin, hspec⟩ := numeral?_spec hrun
    exact ⟨hin.trans ((valueTexts_isInfix htext).trans (trim_isInfix raw)), hspec⟩

theorem numeralsFrom_spec {s : State} {n : Nat} {ls : List (List Char)} {run : List Char}
    (h : run ∈ numeralsFrom s n ls) :
    (∃ l ∈ ls, run <:+: l) ∧ run ≠ [] ∧ ∀ c ∈ run, isDigit c := by
  induction ls generalizing s n with
  | nil => cases h
  | cons l ls ih =>
      rcases List.mem_append.1 h with hl | hls
      · obtain ⟨hin, hspec⟩ := numerals_spec hl
        exact ⟨⟨l, List.mem_cons_self .., hin⟩, hspec⟩
      · obtain ⟨⟨l', hmem, hin⟩, hspec⟩ := ih hls
        exact ⟨⟨l', List.mem_cons_of_mem _ hmem, hin⟩, hspec⟩

theorem numerals_eq_nil (s : State) {raw : List Char}
    (henum : declaredName? "enum" (trim raw) = none) (hnone : numeral? (trim raw) = none) :
    s.numerals raw = [] := by
  rw [State.numerals, State.valueTexts, henum]
  dsimp only
  split
  · rfl
  · split <;> simp [hnone]

end SchemaLint.Style

namespace SchemaLint.Source
open SchemaLint.Style SchemaLint.Text SchemaLint.Line

/-- The numbers of a source that are read, as digits. -/
def numerals (content : List Char) : List (List Char) :=
  numeralsFrom {} 1 (lines content)

theorem check_eq (content : List Char) (ls : List (List Char)) :
    Style.check content ls =
      match firstOverlong (numeralsFrom {} 1 ls) with
      | some digits => .error (.overlong digits)
      | none => .ok (newlineFindings content ls.length ++ (Style.scan {} (ls.zipIdx 1)).2 ++
          (Style.scan {} (ls.zipIdx 1)).1.headerFindings ++
          (Style.scan {} (ls.zipIdx 1)).1.importFindings) := by
  have hscan := overlong_scan {} ls 1
  rw [Option.none_or] at hscan
  rw [← hscan]
  rfl

/-- Validation has a report, unless a number is too long: then the fault is that of the first
one. -/
theorem validate_cases (content : List Char) :
    (firstOverlong (numerals content) = none ∧ ∃ report, validate content = .ok report) ∨
      ∃ digits, firstOverlong (numerals content) = some digits ∧
        validate content = .error (.overlong digits) := by
  rw [validate, check_eq, numerals]
  cases firstOverlong (numeralsFrom {} 1 (lines content)) with
  | none => exact .inl ⟨rfl, _, rfl⟩
  | some digits => exact .inr ⟨digits, rfl, rfl⟩

/-- Validation has a report exactly if every number of an enum value can be read; else the fault
is that of the first number that cannot. Only the digits of a line can be such a number, so a source
without a long run of digits always has a report. -/
theorem validate_ok_iff (content : List Char) :
    ((∃ report, validate content = .ok report) ↔
        ∀ run ∈ numerals content, run.length ≤ Numeral.maxDigits) ∧
      (∀ fault, validate content = .error fault ↔
        ∃ digits, firstOverlong (numerals content) = some digits ∧ fault = .overlong digits) ∧
      ∀ run ∈ numerals content,
        (∃ l ∈ lines content, run <:+: l) ∧ run ≠ [] ∧ ∀ c ∈ run, isDigit c := by
  refine ⟨?_, ?_, fun run hrun => numeralsFrom_spec hrun⟩
  · rw [← firstOverlong_eq_none_iff]
    rcases validate_cases content with ⟨hnone, hok⟩ | ⟨digits, hsome, herror⟩
    · exact iff_of_true hok hnone
    · rw [herror, hsome]
      exact iff_of_false nofun nofun
  · intro fault
    rcases validate_cases content with ⟨hnone, report, hok⟩ | ⟨digits, hsome, herror⟩
    · rw [hok, hnone]
      exact iff_of_false nofun nofun
    · simp [herror, hsome, eq_comm]

def zeroValue (n : Nat) : List Char :=
  "A = ".toList ++ (List.replicate n '0' ++ [';'])

def zeroEnum (n : Nat) : List (List Char) :=
  ["enum E \x7b".toList, "  ".toList ++ zeroValue n, ['\x7d'], []]

theorem numeral?_zeroValue (n : Nat) :
    numeral? (zeroValue (n + 1)) = some (List.replicate (n + 1) '0') := by
  have hzeros : ∀ c ∈ List.replicate (n + 1) '0', isDigit c :=
    fun c hc => List.eq_of_mem_replicate hc ▸ rfl
  have hspace : Blank [' '] := by decide
  have hname : ∀ c ∈ ['A'], isWord c := by decide
  have hassigned : assignment? (zeroValue (n + 1)) =
      some (⟨['A'], false, List.replicate (n + 1) '0'⟩, [';']) :=
    assignment?_spelled false (List.cons_ne_nil _ _) hname hspace hspace (List.cons_ne_nil _ _)
      hzeros fun c hc => by cases hc; decide
  rw [numeral?, hassigned]
  rfl

theorem lines_zeroEnum (n : Nat) : lines (['\n'].intercalate (zeroEnum n)) = zeroEnum n := by
  have hfeed : '\n' ∉ "  ".toList ++ zeroValue n := by
    have hzeros : '\n' ∉ List.replicate n '0' :=
      fun h => absurd (List.eq_of_mem_replicate h) (by decide)
    rw [zeroValue, List.mem_append, List.mem_append, List.mem_append, not_or, not_or, not_or]
    exact ⟨by decide, by decide, hzeros, by decide⟩
  have hlines : ∀ l ∈ zeroEnum n, '\n' ∉ l := by
    rw [zeroEnum, List.forall_mem_cons, List.forall_mem_cons]
    exact ⟨by decide, hfeed, by decide⟩
  exact List.splitOn_intercalate '\n' hlines (List.cons_ne_nil _ _)

theorem numerals_zeroEnum (n : Nat) :
    numerals (['\n'].intercalate (zeroEnum (n + 1))) = [List.replicate (n + 1) '0'] := by
  have hopen : (Style.step {} ("enum E \x7b".toList, 1)).1 =
      { depth := 1, openEnum := some { name := ['E'], line := 1, depth := 0 } } := by decide
  have hfirst : Style.State.numerals {} "enum E \x7b".toList = [] := by decide
  have hclose : ∀ s : Style.State, s.numerals ['\x7d'] = [] :=
    fun s => numerals_eq_nil s (by decide) (by decide)
  have hlast : ∀ s : Style.State, s.numerals [] = [] :=
    fun s => numerals_eq_nil s (by decide) (by decide)
  have hsolid : EndsSolid (zeroValue (n + 1)) :=
    (endsSolid_append (by simp)).2 ((endsSolid_append (List.cons_ne_nil _ _)).2 (by decide))
  have htrim : trim ("  ".toList ++ zeroValue (n + 1)) = zeroValue (n + 1) :=
    (trim_append_left (by decide)).trans
      (trim_eq_self_iff.2 ⟨fun c hc => by cases hc; rfl, hsolid⟩)
  have hword : firstWord (zeroValue (n + 1)) = ['A'] :=
    firstWord_append (w := ['A']) (by decide) fun c hc => by cases hc; rfl
  have hplain : declaredName? "enum" (zeroValue (n + 1)) = none :=
    declaredName?_eq_none (by decide) (hword ▸ by decide)
  have hvalue : ∀ e, Style.State.numerals { depth := 1, openEnum := some e }
      ("  ".toList ++ zeroValue (n + 1)) = [List.replicate (n + 1) '0'] := by
    intro e
    rw [State.numerals, htrim, State.valueTexts, hplain]
    exact List.filterMap_cons_some (numeral?_zeroValue n)
  rw [numerals, lines_zeroEnum, zeroEnum, numeralsFrom, hfirst, hopen, numeralsFrom, numeralsFrom,
    numeralsFrom, numeralsFrom, hclose, hlast, hvalue]
  rfl

/-- A number with one digit more than can be read leaves no report. -/
theorem validate_overlong : ¬ ∀ content, ∃ report, validate content = .ok report := by
  intro h
  obtain ⟨report, hok⟩ := h (['\n'].intercalate (zeroEnum (Numeral.maxDigits + 1)))
  have hnumerals := numerals_zeroEnum Numeral.maxDigits
  rcases validate_cases (['\n'].intercalate (zeroEnum (Numeral.maxDigits + 1))) with
    ⟨hnone, -⟩ | ⟨digits, -, herror⟩
  · rw [hnumerals, firstOverlong_eq_none_iff] at hnone
    have hbound := hnone _ (List.mem_singleton_self _)
    rw [List.length_replicate] at hbound
    exact absurd hbound (Nat.not_succ_le_self _)
  · rw [herror] at hok
    cases hok

end SchemaLint.Source
