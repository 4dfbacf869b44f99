import SchemaLint.Proofs.Layout.Rendering
import SchemaLint.Proofs.Report
import SchemaLint.Proofs.Structure.Places
import SchemaLint.Proofs.Style.Places
import SchemaLint.Source

/-! Where the issues of a report are. Each is at a line of the source and, unless the line is empty,
at a character of it. Of the two kinds of issues that point inside a line, what they point at is
known from their messages alone, since no other message begins as theirs do. -/

namespace SchemaLint
open SchemaLint.Text SchemaLint.Line

/-- The message begins neither as the one about content after a semicolon nor as the one about a
missing semicolon. -/
def Plain (message : String) : Prop :=
  startsWith "Unexpected content".toList message.toList = false ∧
    startsWith "Statement".toList message.toList = false

instance (message : String) : Decidable (Plain message) := inferInstanceAs (Decidable (_ ∧ _))

theorem plain_append {lead : String}
    (h : ∀ tail, startsWith "Unexpected content".toList (lead.toList ++ tail) = false ∧
      startsWith "Statement".toList (lead.toList ++ tail) = false) (tail : String) :
    Plain (lead ++ tail) := by
  rw [Plain, String.toList_append]
  exact h tail.toList

theorem plain_quoting {lead : String}
    (h : ∀ tail, startsWith "Unexpected content".toList (lead.toList ++ tail) = false ∧
      startsWith "Statement".toList (lead.toList ++ tail) = false) (quoted tail : String) :
    Plain (lead ++ quoted ++ tail) := by
  rw [String.append_assoc]
  exact plain_append h _

theorem plain_kind (kind : BlockKind) (tail : String) : Plain (kind.word ++ tail) := by
  refine plain_append (fun _ => ?_) tail
  cases kind <;> exact ⟨rfl, rfl⟩

theorem plain_label (b : Structure.Block) (tail : String) : Plain (b.label ++ tail) := by
  unfold Structure.Block.label
  split
  · exact plain_kind b.kind tail
  · rw [String.append_assoc, String.append_assoc, String.append_assoc]
    exact plain_kind b.kind _

theorem plain_structure {cause : Structure.Cause} (hs : cause ≠ .lacksSemicolon)
    (ht : ∀ content, cause ≠ .trailingContent content) : Plain cause.message := by
  cases cause with
  | lacksSemicolon => exact absurd rfl hs
  | trailingContent content => exact absurd rfl (ht content)
  | missingName kind => exact plain_kind kind _
  | missingBrace b => exact plain_label b _
  | unclosed b => exact plain_quoting (fun _ => ⟨rfl, rfl⟩) b.label _
  | unknownSyntax value => exact plain_quoting (fun _ => ⟨rfl, rfl⟩) (String.ofList value) _
  | unrecognized code => exact plain_quoting (fun _ => ⟨rfl, rfl⟩) (Structure.preview code) _
  | _ => decide

theorem plain_style (cause : Style.Cause) : Plain cause.message := by
  cases cause with
  | longLine length =>
      change Plain (_ ++ _ ++ " characters (" ++ toString length ++ ").")
      rw [String.append_assoc, String.append_assoc, String.append_assoc]
      exact plain_append (fun _ => ⟨rfl, rfl⟩) _
  | messageName name => exact plain_quoting (fun _ => ⟨rfl, rfl⟩) (String.ofList name) _
  | enumName name => exact plain_quoting (fun _ => ⟨rfl, rfl⟩) (String.ofList name) _
  | valueName name => exact plain_quoting (fun _ => ⟨rfl, rfl⟩) (String.ofList name) _
  | firstValue name => exact plain_quoting (fun _ => ⟨rfl, rfl⟩) (String.ofList name) _
  | fieldName name => exact plain_quoting (fun _ => ⟨rfl, rfl⟩) (String.ofList name) _
  | _ => decide

theorem toList_trailing (content : List Char) :
    (Structure.Cause.trailingContent content).message.toList =
      "Unexpected content \"".toList ++ content ++ "\" after semicolon.".toList := by
  change ("Unexpected content \"" ++ String.ofList content ++ "\" after semicolon.").toList = _
  have hcontent : (String.ofList content).toList = content := String.toList_ofList
  rw [String.toList_append, String.toList_append, hcontent]

theorem not_plain_trailing (content : List Char) :
    ¬ Plain (Structure.Cause.trailingContent content).message := by
  rintro ⟨h, -⟩
  rw [toList_trailing, List.append_assoc] at h
  cases h

theorem not_plain_semicolon : ¬ Plain Structure.Cause.lacksSemicolon.message := by
  decide

theorem trailing_ne_semicolon (content : List Char) :
    (Structure.Cause.trailingContent content).message ≠
      Structure.Cause.lacksSemicolon.message := by
  intro h
  have hstart := congrArg (fun m => startsWith "Statement".toList m.toList) h
  rw [toList_trailing, List.append_assoc] at hstart
  cases hstart

theorem eq_trailing_of_message {cause : Structure.Cause} {content : List Char}
    (h : cause.message = (Structure.Cause.trailingContent content).message) :
    cause = .trailingContent content := by
  by_contra hne
  by_cases hs : cause = .lacksSemicolon
  · exact trailing_ne_semicolon content (hs ▸ h).symm
  · by_cases ht : ∃ other, cause = .trailingContent other
    · obtain ⟨other, rfl⟩ := ht
      have htext := congrArg String.toList h
      rw [toList_trailing, toList_trailing, List.append_left_inj, List.append_right_inj] at htext
      exact hne (htext ▸ rfl)
    · exact not_plain_trailing content (h ▸ plain_structure hs fun other he => ht ⟨other, he⟩)

theorem eq_semicolon_of_message {cause : Structure.Cause}
    (h : cause.message = Structure.Cause.lacksSemicolon.message) : cause = .lacksSemicolon := by
  by_contra hs
  by_cases ht : ∃ content, cause = .trailingContent content
  · obtain ⟨content, rfl⟩ := ht
    exact trailing_ne_semicolon content h
  · exact not_plain_semicolon (h ▸ plain_structure hs fun content he => ht ⟨content, he⟩)

/-- The issue is on a line: at its first column or at one of its characters. Content after a
semicolon is reported at the character behind the last semicolon of the code, and a missing
semicolon at the last character of the code. -/
structure Issue.IsOn (l : List Char) (i : Issue) : Prop where
  column : 1 ≤ i.column ∧ i.column ≤ max 1 (l.length : Int)
  trailing : ∀ content, i.message = (Structure.Cause.trailingContent content).message →
    Structure.FollowsSemicolon l content i.column
  semicolon : i.message = Structure.Cause.lacksSemicolon.message →
    upToCode l ≠ [] ∧ i.column = (upToCode l).length

/-- The issue is on a line of the source, and as severe as its rule. -/
structure Issue.PointsInto (ls : List (List Char)) (i : Issue) : Prop where
  severity : i.severity = i.rule.severity
  place : ∃ (n : Nat) (l : List Char), ls[n]? = some l ∧ i.line = n + 1 ∧ i.IsOn l

theorem place_of_mem_zipIdx {ls : List (List Char)} {l : List Char} {line : Nat} {i : Issue}
    (hl : (l, line) ∈ ls.zipIdx 1) (hi : i.line = line) (hon : i.IsOn l) :
    ∃ (n : Nat) (l : List Char), ls[n]? = some l ∧ i.line = n + 1 ∧ i.IsOn l := by
  obtain ⟨hpos, hget⟩ := List.mk_mem_zipIdx_iff_le_and_getElem?_sub.1 hl
  exact ⟨line - 1, l, hget, by omega, hon⟩

theorem isOn_fault {l : List Char} {f : Structure.Fault} (h : f.cause.At l f.column) :
    f.issue.IsOn l := by
  obtain ⟨hpos, hle⟩ := Structure.column_of_at h
  have hcolumn : f.issue.column = f.column := rfl
  refine ⟨by omega, fun content hm => ?_, fun hm => ?_⟩
  · rw [eq_trailing_of_message hm] at h
    exact h
  · rw [eq_semicolon_of_message hm] at h
    exact ⟨h.1, congrArg Nat.cast h.2⟩

theorem isOn_finding {l : List Char} {f : Style.Finding} (h : f.cause.At l f.column) :
    f.issue.IsOn l := by
  obtain ⟨hpos, hle⟩ := Style.column_of_at h
  have hcolumn : f.issue.column = f.column := rfl
  have hplain : Plain f.issue.message := plain_style f.cause
  exact ⟨by omega, fun content hm => absurd (hm ▸ hplain) (not_plain_trailing content),
    fun hm => absurd (hm ▸ hplain) not_plain_semicolon⟩

theorem Rule.severity_ne_info (r : Rule) : r.severity ≠ .info := by
  cases r <;> decide

namespace Source

theorem exists_found {content : List Char} {report : Report}
    (h : validate content = .ok report) :
    ∃ found, Style.check content (lines content) = .ok found ∧
      report = Report.ofIssues (found.map Style.Finding.issue ++
        (Structure.check (lines content)).map Structure.Fault.issue) := by
  unfold validate at h
  cases hfound : Style.check content (lines content) with
  | error fault =>
      rw [hfound] at h
      cases h
  | ok found =>
      rw [hfound] at h
      exact ⟨found, rfl, (Except.ok.inj h).symm⟩

theorem lines_ne_nil (content : List Char) : lines content ≠ [] :=
  List.splitOn_ne_nil '\n' content

theorem pointsInto_issues {content : List Char} {found : List Style.Finding}
    (h : Style.check content (lines content) = .ok found) :
    ∀ i ∈ found.map Style.Finding.issue ++
      (Structure.check (lines content)).map Structure.Fault.issue,
      i.PointsInto (lines content) := by
  rw [List.forall_mem_append, List.forall_mem_map, List.forall_mem_map]
  constructor
  · intro f hf
    obtain ⟨l, hl, hat⟩ := Style.check_pointsInto (lines_ne_nil content) h f hf
    exact ⟨rfl, place_of_mem_zipIdx hl rfl (isOn_finding hat)⟩
  · intro f hf
    obtain ⟨l, hl, hat⟩ :=
      Structure.check_pointsInto (fun _ => Layout.no_newline_of_mem_lines) f hf
    exact ⟨rfl, place_of_mem_zipIdx hl rfl (isOn_fault hat)⟩

/-- Every issue of a report is on a line of its source, at the column of its message and as severe
as its rule; none is informational. -/
theorem issues_point_into_source (content : List Char) (report : Report)
    (h : validate content = .ok report) :
    report.info = [] ∧ ∀ i ∈ report.errors ++ report.warnings ++ report.info,
      i.PointsInto (lines content) := by
  obtain ⟨found, hfound, rfl⟩ := exists_found h
  have hissues := pointsInto_issues hfound
  refine ⟨?_, fun i hi => hissues i ((Report.perm_ofIssues _).mem_iff.1 hi)⟩
  refine List.eq_nil_iff_forall_not_mem.2 fun i hi => ?_
  obtain ⟨hmem, hinfo⟩ := List.mem_filter.1 ((Report.ordered_part _ .info).perm.mem_iff.1 hi)
  rw [decide_eq_true_eq, (hissues i hmem).severity] at hinfo
  exact i.rule.severity_ne_info hinfo

/-- A field with more behind it, and an option without its semicolon. -/
def crowded : List Char :=
  "message A \x7b\n  int32 a = 1; int32 b\n  option c = true // last\n\x7d\n".toList

theorem issues_point_into_source_crowded :
    ∃ report, validate crowded = .ok report ∧ report.info = [] ∧
      ∀ i ∈ report.errors ++ report.warnings ++ report.info, i.PointsInto (lines crowded) :=
  ⟨_, rfl, issues_point_into_source crowded _ rfl⟩

end Source

end SchemaLint
