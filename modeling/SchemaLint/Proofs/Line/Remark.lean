import SchemaLint.Line.Comment
import SchemaLint.Proofs.Text.Lexeme

/-! Trailing comments. A line's remark runs from its first two slashes to its end; its code is what
precedes them. -/

namespace SchemaLint.Line
open SchemaLint.Text

/-- The text from the first two slashes on; nothing if there are none. -/
def remark : List Char → List Char
  | [] => []
  | c :: s => if startsWith "//".toList (c :: s) then c :: s else remark s

def beforeRemark : List Char → List Char
  | [] => []
  | c :: s => if startsWith "//".toList (c :: s) then [] else c :: beforeRemark s

theorem startsWith_slashes (c : Char) (s : List Char) :
    startsWith "//".toList (c :: s) ↔ c = '/' ∧ s.head? = some '/' := by
  rw [startsWith_iff]
  cases s with
  | nil => simp
  | cons d s => simp [eq_comm]

theorem remark_cons_of_slashes {c : Char} {s : List Char} (h : startsWith "//".toList (c :: s)) :
    remark (c :: s) = c :: s := if_pos h

theorem remark_cons_of_not {c : Char} {s : List Char} (h : ¬ startsWith "//".toList (c :: s)) :
    remark (c :: s) = remark s := if_neg h

theorem beforeRemark_cons_of_not {c : Char} {s : List Char}
    (h : ¬ startsWith "//".toList (c :: s)) :
    beforeRemark (c :: s) = c :: beforeRemark s := if_neg h

theorem beforeRemark_append_remark (s : List Char) : beforeRemark s ++ remark s = s := by
  induction s with
  | nil => rfl
  | cons c s ih =>
      by_cases h : startsWith "//".toList (c :: s)
      · rw [remark, beforeRemark, if_pos h, if_pos h, List.nil_append]
      · rw [remark, beforeRemark, if_neg h, if_neg h, List.cons_append, ih]

theorem beforeRemark_isPrefix (s : List Char) : beforeRemark s <+: s :=
  ⟨remark s, beforeRemark_append_remark s⟩

theorem remark_beforeRemark (s : List Char) : remark (beforeRemark s) = [] := by
  induction s with
  | nil => rfl
  | cons c s ih =>
      by_cases hc : startsWith "//".toList (c :: s)
      · rw [beforeRemark, if_pos hc]
        rfl
      · rw [beforeRemark_cons_of_not hc, remark_cons_of_not, ih]
        rw [startsWith_slashes] at hc ⊢
        rintro ⟨rfl, hh⟩
        obtain ⟨t, ht⟩ := beforeRemark_isPrefix s
        exact hc ⟨rfl, ht ▸ List.mem_head?_append_of_mem_head? hh⟩

theorem startsWith_remark {s : List Char} (h : remark s ≠ []) :
    startsWith "//".toList (remark s) := by
  induction s with
  | nil => exact absurd rfl h
  | cons c s ih =>
      by_cases hc : startsWith "//".toList (c :: s)
      · rwa [remark_cons_of_slashes hc]
      · rw [remark_cons_of_not hc] at h ⊢
        exact ih h

theorem remark_suffix (s : List Char) : remark s <:+ s :=
  ⟨beforeRemark s, beforeRemark_append_remark s⟩

/-- The slashes of a remark are not split between two texts. -/
def Unjoined (s t : List Char) : Prop :=
  s.getLast? = some '/' → t.head? ≠ some '/'

theorem Unjoined.of_head {s t : List Char} (h : t.head? ≠ some '/') : Unjoined s t := by
  intro _
  exact h

theorem Unjoined.of_last {s t : List Char} (h : s.getLast? ≠ some '/') : Unjoined s t := by
  intro hs
  exact absurd hs h

theorem remark_append_of_ne_nil {s : List Char} (h : remark s ≠ []) (t : List Char) :
    remark (s ++ t) = remark s ++ t ∧ beforeRemark (s ++ t) = beforeRemark s := by
  induction s with
  | nil => exact absurd rfl h
  | cons c s ih =>
      by_cases hc : startsWith "//".toList (c :: s)
      · have hct : startsWith "//".toList (c :: (s ++ t)) := by
          rw [startsWith_slashes] at hc ⊢
          refine ⟨hc.1, ?_⟩
          rw [List.head?_append, hc.2, Option.some_or]
        rw [List.cons_append, remark, remark, beforeRemark, beforeRemark, if_pos hc, if_pos hct,
          if_pos hc, if_pos hct]
        exact ⟨rfl, rfl⟩
      · rw [remark_cons_of_not hc] at h
        obtain ⟨hr, hb⟩ := ih h
        have hct : ¬ startsWith "//".toList (c :: (s ++ t)) := by
          rw [startsWith_slashes] at hc ⊢
          have hs : s ≠ [] := by rintro rfl; exact h rfl
          rwa [List.head?_append_of_ne_nil _ hs]
        rw [List.cons_append, remark_cons_of_not hct, remark_cons_of_not hc,
          beforeRemark_cons_of_not hct, beforeRemark_cons_of_not hc, hr, hb]
        exact ⟨rfl, rfl⟩

theorem remark_append_of_nil {s t : List Char} (h : remark s = []) (hu : Unjoined s t) :
    remark (s ++ t) = remark t ∧ beforeRemark (s ++ t) = s ++ beforeRemark t := by
  induction s with
  | nil => exact ⟨rfl, rfl⟩
  | cons c s ih =>
      have hc : ¬ startsWith "//".toList (c :: s) := by
        intro hc
        rw [remark_cons_of_slashes hc] at h
        cases h
      rw [remark_cons_of_not hc] at h
      have hct : ¬ startsWith "//".toList (c :: (s ++ t)) := by
        rw [startsWith_slashes] at hc ⊢
        rintro ⟨rfl, hh⟩
        cases s with
        | nil => exact hu rfl hh
        | cons d s => exact hc ⟨rfl, hh⟩
      have hs : Unjoined s t := by
        intro hl
        cases s with
        | nil => cases hl
        | cons d s => exact hu (by rwa [List.getLast?_cons_cons])
      obtain ⟨hr, hb⟩ := ih h hs
      rw [List.cons_append, remark_cons_of_not hct, beforeRemark_cons_of_not hct, hr, hb]
      exact ⟨rfl, rfl⟩

theorem beforeRemark_of_nil {s : List Char} (h : remark s = []) : beforeRemark s = s := by
  have := beforeRemark_append_remark s
  rwa [h, List.append_nil] at this

theorem remark_of_no_slash {s : List Char} (h : '/' ∉ s) : remark s = [] := by
  by_contra hr
  exact h ((remark_suffix s).subset ((startsWith_iff.1 (startsWith_remark hr)).subset (by decide)))

theorem remark_append_of_no_slash {s : List Char} (h : '/' ∉ s) (t : List Char) :
    remark (s ++ t) = remark t ∧ beforeRemark (s ++ t) = s ++ beforeRemark t :=
  remark_append_of_nil (remark_of_no_slash h) (.of_last fun hl => h (List.mem_of_getLast? hl))

theorem no_slash_of_blank {g : List Char} (h : Blank g) : '/' ∉ g :=
  h.not_mem (by decide)

theorem remark_eq_nil_iff {s : List Char} : remark s = [] ↔ ¬ holds "//".toList s := by
  rw [holds]
  induction s with
  | nil => exact ⟨fun _ => by decide, fun _ => rfl⟩
  | cons c s ih =>
      by_cases hc : startsWith "//".toList (c :: s)
      · rw [remark_cons_of_slashes hc, someEnd, hc, Bool.true_or]
        exact ⟨fun h => (by cases h), fun h => absurd rfl h⟩
      · rw [remark_cons_of_not hc, ih, someEnd, eq_false_of_ne_true hc, Bool.false_or]

theorem beforeComment_of_remark {s : List Char} (h : remark s = []) : beforeComment s = s := by
  induction s with
  | nil => rfl
  | cons c s ih =>
      have hc : ¬ startsWith "//".toList (c :: s) := by
        intro hc
        rw [remark_cons_of_slashes hc] at h
        cases h
      rw [remark_cons_of_not hc] at h
      rw [beforeComment, eq_false_of_ne_true hc, Bool.false_and, if_neg Bool.false_ne_true, ih h]

theorem code_of_remark {s : List Char} (ht : trim s = s) (h : remark s = []) : code s = s := by
  rw [code, beforeComment_of_remark h, ht]

theorem beforeComment_of_no_slash {s : List Char} (h : '/' ∉ s) : beforeComment s = s :=
  beforeComment_of_remark (remark_of_no_slash h)

theorem startsSolid_remark (s : List Char) : StartsSolid (remark s) := by
  by_cases h : remark s = []
  · simp [h]
  · obtain ⟨t, ht⟩ := startsWith_iff.1 (startsWith_remark h)
    rw [← ht]
    exact startsSolid_cons.2 (by decide)

/-- Trimming a line takes white space only, from before its code and from its end. -/
theorem remark_trim (s : List Char) :
    (∃ g k, Blank g ∧ Blank k ∧ beforeRemark s = g ++ beforeRemark (trim s) ++ k) ∧
      ∃ k, Blank k ∧ remark s = remark (trim s) ++ k := by
  obtain ⟨g, k, hg, hk, he⟩ := exists_trim s
  obtain ⟨hr, hb⟩ := remark_append_of_no_slash (no_slash_of_blank hg) (trim s ++ k)
  rw [← List.append_assoc, ← he] at hr hb
  by_cases ht : remark (trim s) = []
  · have hu : Unjoined (trim s) k := .of_head fun hh => no_slash_of_blank hk (List.mem_of_head? hh)
    obtain ⟨hrk, hbk⟩ := remark_append_of_nil ht hu
    have hkr := remark_of_no_slash (no_slash_of_blank hk)
    refine ⟨⟨g, k, hg, hk, ?_⟩, [], .nil, ?_⟩
    · rw [hb, hbk, beforeRemark_of_nil hkr, beforeRemark_of_nil ht, List.append_assoc]
    · rw [hr, hrk, hkr, ht, List.append_nil]
  · obtain ⟨hrk, hbk⟩ := remark_append_of_ne_nil ht k
    refine ⟨⟨g, [], hg, .nil, ?_⟩, k, hk, ?_⟩
    · rw [hb, hbk, List.append_nil]
    · rw [hr, hrk]

end SchemaLint.Line
