import Mathlib.Data.List.Basic
import SchemaLint.Report

/-! Reports as ordered partitions. A report holds every issue once, in the list of its severity and
in the order of places; issues that share severity and place keep the order in which they came.
Nothing else about the order of the issues shows in a report. -/

namespace SchemaLint

namespace Issue

def samePlace (a b : Issue) : Bool :=
  a.line = b.line && a.column = b.column

/-- Two issues of one severity are at one place, so that nothing but their arrival orders them. -/
def tied (a b : Issue) : Bool :=
  b.severity = a.severity && a.samePlace b

theorem samePlace_iff {a b : Issue} : a.samePlace b ↔ a.line = b.line ∧ a.column = b.column := by
  simp [samePlace]

theorem precedes_iff {a b : Issue} :
    a.precedes b ↔ a.line < b.line ∨ a.line = b.line ∧ a.column ≤ b.column := by
  simp [precedes]

theorem precedes_trans (a b c : Issue) (h : a.precedes b) (k : b.precedes c) : a.precedes c := by
  rw [precedes_iff] at *
  omega

theorem precedes_total (a b : Issue) : a.precedes b || b.precedes a := by
  rw [Bool.or_eq_true, precedes_iff, precedes_iff]
  omega

theorem samePlace_of_precedes {a b : Issue} (h : a.precedes b) (k : b.precedes a) :
    a.samePlace b := by
  rw [precedes_iff] at h k
  rw [samePlace_iff]
  omega

theorem precedes_of_samePlace {a b c : Issue} (hb : a.samePlace b) (hc : a.samePlace c) :
    b.precedes c := by
  rw [samePlace_iff] at hb hc
  rw [precedes_iff]
  omega

end Issue

namespace Report

/-- The issues of a list in the order of their places, those at one place as they came. -/
structure Ordered (issues sorted : List Issue) : Prop where
  perm : sorted.Perm issues
  places : sorted.Pairwise fun a b => a.line < b.line ∨ a.line = b.line ∧ a.column ≤ b.column
  ties : ∀ i : Issue, sorted.filter i.samePlace = issues.filter i.samePlace

/-- The same issues in another order; those of one severity at one place are in the same order. -/
structure Reordered (issues others : List Issue) : Prop where
  perm : issues.Perm others
  ties : ∀ i : Issue, issues.filter i.tied = others.filter i.tied

/-- The issues of one severity that a report holds. -/
def part (r : Report) : Severity → List Issue
  | .error => r.errors
  | .warning => r.warnings
  | .info => r.info

theorem ext_part {r t : Report} (h : ∀ severity, r.part severity = t.part severity) : r = t := by
  obtain ⟨_, _, _⟩ := r
  obtain ⟨_, _, _⟩ := t
  obtain rfl := h .error
  obtain rfl := h .warning
  obtain rfl := h .info
  rfl

theorem part_ofIssues (issues : List Issue) (severity : Severity) :
    (ofIssues issues).part severity = select severity (issues.mergeSort Issue.precedes) := by
  cases severity <;> rfl

theorem filter_mergeSort (issues : List Issue) (i : Issue) :
    (issues.mergeSort Issue.precedes).filter i.samePlace = issues.filter i.samePlace := by
  have hplace : (issues.filter i.samePlace).Pairwise fun a b => a.precedes b :=
    List.pairwise_of_forall_mem_list fun a ha b hb =>
      Issue.precedes_of_samePlace (List.mem_filter.1 ha).2 (List.mem_filter.1 hb).2
  have hsub : (issues.filter i.samePlace).Sublist (issues.mergeSort Issue.precedes) :=
    List.sublist_mergeSort Issue.precedes_trans Issue.precedes_total hplace List.filter_sublist
  have hkept := hsub.filter i.samePlace
  rw [List.filter_eq_self.2 fun a ha => (List.mem_filter.1 ha).2] at hkept
  have hperm := (List.mergeSort_perm issues Issue.precedes).filter i.samePlace
  exact (hkept.eq_of_length hperm.length_eq.symm).symm

theorem ordered_mergeSort (issues : List Issue) :
    Ordered issues (issues.mergeSort Issue.precedes) where
  perm := List.mergeSort_perm ..
  places := (List.pairwise_mergeSort Issue.precedes_trans Issue.precedes_total issues).imp
    Issue.precedes_iff.1
  ties := filter_mergeSort issues

theorem Ordered.filter {issues sorted : List Issue} (h : Ordered issues sorted)
    (p : Issue → Bool) : Ordered (issues.filter p) (sorted.filter p) where
  perm := h.perm.filter p
  places := h.places.filter p
  ties i := by
    rw [List.filter_comm, h.ties, List.filter_comm]

/-- Issues in the order of their places are known from those of each place: the first of all is
the first of the least place. -/
theorem eq_of_places {xs ys : List Issue} (hx : xs.Pairwise fun a b => a.precedes b)
    (hy : ys.Pairwise fun a b => a.precedes b)
    (h : ∀ i : Issue, xs.filter i.samePlace = ys.filter i.samePlace) : xs = ys := by
  have hself : ∀ i : Issue, i.samePlace i := fun i => Issue.samePlace_iff.2 ⟨rfl, rfl⟩
  induction xs generalizing ys with
  | nil =>
      refine (List.eq_nil_iff_forall_not_mem.2 fun b hb => ?_).symm
      have hmem : b ∈ ys.filter b.samePlace := List.mem_filter.2 ⟨hb, hself b⟩
      rw [← h b] at hmem
      cases hmem
  | cons a xs ih =>
      have ha : a ∈ ys := by
        have hmem : a ∈ (a :: xs).filter a.samePlace :=
          List.mem_filter.2 ⟨List.mem_cons_self, hself a⟩
        rw [h a] at hmem
        exact (List.mem_filter.1 hmem).1
      cases ys with
      | nil => cases ha
      | cons b ys =>
          obtain ⟨hxs, hxs'⟩ := List.pairwise_cons.1 hx
          obtain ⟨hys, hys'⟩ := List.pairwise_cons.1 hy
          have hb : b ∈ a :: xs := by
            have hmem : b ∈ (b :: ys).filter b.samePlace :=
              List.mem_filter.2 ⟨List.mem_cons_self, hself b⟩
            rw [← h b] at hmem
            exact (List.mem_filter.1 hmem).1
          have hplace : a.samePlace b := by
            rcases List.mem_cons.1 ha with rfl | ha
            · exact hself a
            · rcases List.mem_cons.1 hb with rfl | hb
              · exact hself b
              · exact Issue.samePlace_of_precedes (hxs b hb) (hys a ha)
          have hfirst := h a
          rw [List.filter_cons_of_pos (hself a), List.filter_cons_of_pos hplace] at hfirst
          obtain rfl := (List.cons.inj hfirst).1
          refine congrArg (a :: ·) (ih hxs' hys' fun i => ?_)
          have hi := h i
          rw [List.filter_cons, List.filter_cons] at hi
          split at hi
          · exact (List.cons.inj hi).2
          · exact hi

theorem ordered_part (issues : List Issue) (severity : Severity) :
    Ordered (issues.filter (·.severity = severity)) ((ofIssues issues).part severity) := by
  rw [part_ofIssues]
  exact (ordered_mergeSort issues).filter _

/-- The issues of one severity and place in a report are those that came. -/
theorem filter_part (issues : List Issue) (severity : Severity) (i : Issue) :
    ((ofIssues issues).part severity).filter i.samePlace =
      issues.filter { i with severity }.tied := by
  rw [(ordered_part issues severity).ties, List.filter_filter]
  exact List.filter_congr fun a _ => Bool.and_comm _ _

theorem count_part (issues : List Issue) (severity : Severity) (i : Issue) :
    ((ofIssues issues).part severity).count i =
      if i.severity = severity then issues.count i else 0 := by
  rw [(ordered_part issues severity).perm.count_eq]
  split
  case isTrue h => exact List.count_filter (by simpa using h)
  case isFalse h =>
      exact List.count_eq_zero.2 fun hmem => h (by simpa using (List.mem_filter.1 hmem).2)

theorem perm_ofIssues (issues : List Issue) :
    ((ofIssues issues).errors ++ (ofIssues issues).warnings ++ (ofIssues issues).info).Perm
      issues := by
  refine List.perm_iff_count.2 fun i => ?_
  have herrors := count_part issues .error i
  have hwarnings := count_part issues .warning i
  have hinfo := count_part issues .info i
  simp only [part] at herrors hwarnings hinfo
  rw [List.count_append, List.count_append, herrors, hwarnings, hinfo]
  cases i.severity <;> simp

theorem Reordered.ofIssues_eq {issues others : List Issue} (h : Reordered issues others) :
    ofIssues issues = ofIssues others := by
  refine ext_part fun severity => ?_
  have hplaces : ∀ issues, ((ofIssues issues).part severity).Pairwise fun a b => a.precedes b :=
    fun issues => (ordered_part issues severity).places.imp Issue.precedes_iff.2
  refine eq_of_places (hplaces issues) (hplaces others) fun i => ?_
  rw [filter_part, filter_part, h.ties]

theorem reordered_of_ofIssues {issues others : List Issue}
    (h : ofIssues issues = ofIssues others) : Reordered issues others where
  perm := (perm_ofIssues issues).symm.trans (h ▸ perm_ofIssues others)
  ties i := by
    have hpart := filter_part issues i.severity i
    rw [h, filter_part others] at hpart
    exact hpart.symm

/-- A report is an ordered partition of the issues that it is made of, and it is valid if none of
them is an error. Two lists of issues make one report exactly if they hold the same issues and
leave those that share severity and place in one order. -/
theorem ofIssues_partition (issues : List Issue) :
    ((ofIssues issues).errors ++ (ofIssues issues).warnings ++ (ofIssues issues).info).Perm
        issues ∧
      (∀ severity, Ordered (issues.filter (·.severity = severity))
        ((ofIssues issues).part severity)) ∧
      ((ofIssues issues).valid ↔ (ofIssues issues).errors = []) ∧
      ∀ others, ofIssues issues = ofIssues others ↔ Reordered issues others :=
  ⟨perm_ofIssues issues, ordered_part issues, List.isEmpty_iff,
    fun _ => ⟨reordered_of_ofIssues, Reordered.ofIssues_eq⟩⟩

end Report

end SchemaLint
