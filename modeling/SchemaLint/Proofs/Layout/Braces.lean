import SchemaLint.Proofs.Layout.CodeSpacing
import SchemaLint.Proofs.Layout.Remarks
import SchemaLint.Proofs.Line.Code

/-! Braces of the code under formatting. The output has the braces that the code has, and one
closing brace more for each line that is split inside its comment. -/

namespace SchemaLint.Layout
open SchemaLint.Text SchemaLint.Line

/-- The line is split inside its comment, so that a brace of the comment becomes code. -/
def SplitsRemark (t : List Char) : Prop :=
  isComment t = false ∧ remark t ≠ [] ∧ (statementAndCloser? t).isSome

instance (t : List Char) : Decidable (SplitsRemark t) :=
  inferInstanceAs (Decidable (_ ∧ _ ∧ _))

def isBrace (c : Char) : Bool :=
  c == '{' || c == '}'

def braces (t : List Char) : List Char :=
  (codeOf false t).filter isBrace

theorem count_braces {a : Char} (ha : isBrace a) (t : List Char) :
    (braces t).count a = (codeOf false t).count a :=
  List.count_filter ha

theorem isBlank_of_isBrace {c : Char} (h : isBrace c) : isBlank c = false := by
  rw [isBrace, Bool.or_eq_true, beq_iff_eq, beq_iff_eq] at h
  rcases h with rfl | rfl <;> decide

theorem filter_trim (s : List Char) : (trim s).filter isBrace = s.filter isBrace := by
  have hink : ∀ t : List Char, (ink t).filter isBrace = t.filter isBrace := by
    intro t
    rw [ink, List.filter_filter]
    refine List.filter_congr fun c _ => ?_
    cases hc : isBrace c with
    | true => simp [isBlank_of_isBrace hc]
    | false => simp
  rw [← hink, ink_trim, hink]

theorem count_codeOfAll {a : Char} (ha : isBrace a) (b : Bool) (ls : List (List Char)) :
    (codeOfAll b ls).count a = (collect (fun _ => []) braces b ls).count a := by
  induction ls generalizing b with
  | nil => rfl
  | cons l ls ih =>
      have hline : (codeOf b l).count a =
          (if b || opensBlock (trim l) then [] else braces (trim l)).count a := by
        split
        case isTrue h =>
            cases b with
            | true => rw [codeOf_true]
            | false => rw [codeOf_comment (opensBlock_isComment h)]
        case isFalse h =>
            rw [Bool.or_eq_true, not_or, Bool.not_eq_true] at h
            rw [h.1, count_braces ha, codeOf, codeOf, trim_trim]
      rw [codeOfAll, collect, List.count_append, List.count_append, hline, ih]

theorem braces_braced {s : List Char} (hr : remark s = []) (hw : StartsWord s) :
    braces (trim (s ++ " \x7b".toList)) = braces (trim s) ++ braces ['{'] := by
  have hcode : ∀ u : List Char, remark u = [] → StartsWord u →
      braces (trim u) = u.filter isBrace := by
    rintro u hu ⟨c, hc, hword⟩
    have hcomment : isComment (trim (trim u)) = false := by
      rw [trim_trim]
      exact isComment_of_word (head?_trim hc hword) hword
    rw [braces, codeOf_code hcomment, trim_trim,
      code_of_remark (trim_trim u) (remark_trim_of_nil hu), filter_trim]
  rw [hcode _ hr hw, hcode _ (remark_braced hr) (hw.of_isPrefix (List.prefix_append _ _)),
    List.filter_append]
  rfl

theorem count_spaced {a : Char} (ha : isBrace a) {t : List Char} (ht : trim t = t)
    (hnl : '\n' ∉ t) : (braces (spaced t)).count a = (braces t).count a := by
  have htrim : trim (spaced t) = spaced t := trim_trim _
  rw [count_braces ha, count_braces ha, codeOf, codeOf, htrim, ht, isComment_spaced ht]
  split
  · rfl
  · exact count_of_compact (compact_code_spaced hnl) (isBlank_of_isBrace ha)

section
variable {t statement closer : List Char} (ht : trim t = t) (hc : isComment t = false)
  (h : statementAndCloser? t = some (statement, closer))
include ht hc h

theorem trim_of_split : trim statement = statement ∧ isComment statement = false ∧
    trim closer = closer ∧ code closer = closer := by
  obtain ⟨hts, -, htc, -⟩ := isCode_of_split (l := t) (by rwa [ht]) (by rwa [ht])
  obtain ⟨g, -, he, -, -, -, hcloser⟩ := statementAndCloser?_eq_some_iff.1 h
  refine ⟨hts, Bool.eq_false_iff.2 fun hcs => ?_, htc, ?_⟩
  · rw [he, isComment_append hcs] at hc
    cases hc
  · rcases closer_cases hcloser with rfl | rfl <;> decide

theorem code_of_split (hr : remark t = []) : code t = t ∧ code statement = statement := by
  obtain ⟨hts, -⟩ := trim_of_split ht hc h
  obtain ⟨-, ⟨hrs, -⟩ | ⟨hrs, g, -, he⟩⟩ := remark_split h
  · exact ⟨code_of_remark ht hr, code_of_remark hts hrs⟩
  · rw [hr] at he
    exact absurd (List.append_eq_nil_iff.1 he.symm).1 hrs

theorem count_split {a : Char} (ha : isBrace a) (hnl : '\n' ∉ t) :
    (braces (spaced statement)).count a + (braces closer).count a =
      (braces t).count a + if SplitsRemark t ∧ a = '}' then 1 else 0 := by
  obtain ⟨hts, hcs, htc, -⟩ := trim_of_split ht hc h
  obtain ⟨g, hg, he, hopen, hclose, -, hcloser⟩ := statementAndCloser?_eq_some_iff.1 h
  have hnls : '\n' ∉ statement := fun hm => hnl (he ▸ List.mem_append_left _ hm)
  have has : a ∉ statement := by
    rw [isBrace, Bool.or_eq_true, beq_iff_eq, beq_iff_eq] at ha
    rcases ha with rfl | rfl
    · exact hopen
    · exact hclose
  have hag : a ∉ g := fun hm => by
    have := hg a hm
    rw [isBlank_of_isBrace ha] at this
    cases this
  have hstatement : (braces (spaced statement)).count a = 0 := by
    rw [count_spaced ha hts hnls, count_braces ha, codeOf_code (by rwa [hts]), hts]
    exact List.count_eq_zero.2 fun hm =>
      has ((beforeComment_isPrefix _).subset (mem_of_mem_trim hm))
  have hone : braces closer = ['}'] := by rcases closer_cases hcloser with rfl | rfl <;> decide
  rw [hstatement, hone, count_braces ha, codeOf_code (by rwa [ht]), ht, Nat.zero_add]
  by_cases hr : remark t = []
  · have hcount : closer.count a = ['}'].count a := by
      rw [← hone, count_braces ha]
      rcases closer_cases hcloser with rfl | rfl <;> rfl
    rw [(code_of_split ht hc h hr).1, if_neg fun hs => hs.1.2.1 hr, he, List.count_append,
      List.count_append, List.count_eq_zero.2 has, List.count_eq_zero.2 hag, hcount]
    omega
  · have hsplits : SplitsRemark t := ⟨hc, hr, by rw [h]; rfl⟩
    have hrs : remark statement ≠ [] := by
      rcases (remark_split h).2 with ⟨-, hn⟩ | ⟨hrs, -⟩
      · exact absurd hn hr
      · exact hrs
    have hbefore : beforeRemark t = beforeRemark statement := by
      rw [he, (remark_append_of_ne_nil hrs _).2]
    have hnone : (code t).count a = 0 := by
      refine List.count_eq_zero.2 fun hm => has ?_
      rw [code_eq hnl, hbefore] at hm
      rw [← beforeRemark_append_remark statement]
      exact List.mem_append_left _ (mem_of_mem_trim hm)
    rw [hnone, Nat.zero_add, List.count_singleton]
    refine if_congr ?_ rfl rfl
    rw [beq_iff_eq]
    exact ⟨fun ha => ⟨hsplits, ha.symm⟩, fun ha => ha.2.symm⟩

end

/-- The lines that a line becomes have its braces, and one more if it is split in its comment. -/
theorem count_outputs {a : Char} (ha : isBrace a) {t : List Char} (ht : trim t = t)
    (hnl : '\n' ∉ t) : ((outputs t).flatMap braces).count a =
      (braces t).count a + if SplitsRemark t ∧ a = '}' then 1 else 0 := by
  have whole : ¬ SplitsRemark t → ∀ u, (braces u).count a = (braces t).count a →
      ([u].flatMap braces).count a =
        (braces t).count a + if SplitsRemark t ∧ a = '}' then 1 else 0 := by
    intro hs u hu
    rw [if_neg fun h => hs h.1, List.flatMap_singleton, hu, Nat.add_zero]
  have h := becomes t
  generalize outputs t = us at h ⊢
  cases h with
  | blank hn =>
      subst hn
      rfl
  | close hclose =>
      refine whole (fun hs => ?_) t rfl
      rw [SplitsRemark, statementAndCloser?_of_closing hclose] at hs
      cases hs.2.2
  | whole _ hw =>
      refine whole (fun hs => ?_) _ (count_spaced ha ht hnl)
      rcases hw with hc | hnone
      · rw [hs.1] at hc
        cases hc
      · rw [SplitsRemark, hnone] at hs
        cases hs.2.2
  | split _ hc hs =>
      rw [List.flatMap_cons, List.flatMap_singleton, List.count_append]
      exact count_split ht hc hs ha hnl

theorem count_collect {f g : List Char → List Char} {p : List Char → Bool} {a : Char} {b : Bool}
    {ls : List (List Char)}
    (h : ∀ t ∈ collect (fun _ => []) (fun t => [t]) b ls,
      (g t).count a = (f t).count a + if p t then 1 else 0) :
    (collect (fun _ => []) g b ls).count a = (collect (fun _ => []) f b ls).count a +
      (collect (fun _ => []) (fun t => [t]) b ls).countP p := by
  induction ls generalizing b with
  | nil => rfl
  | cons l ls ih =>
      obtain ⟨hl, hls⟩ := forall_collect_cons.1 h
      rw [collect, collect, collect, List.count_append, List.count_append, List.countP_append,
        ih hls]
      split
      case isTrue => simp
      case isFalse hb =>
          rw [hl (eq_false_of_ne_true hb), List.countP_singleton]
          omega

theorem count_format (x : List Char) :
    (codeOfAll false (Source.lines (Source.format x))).count '{' =
        (codeOfAll false (Source.lines x)).count '{' ∧
      (codeOfAll false (Source.lines (Source.format x))).count '}' =
        (codeOfAll false (Source.lines x)).count '}' + (codeLines x).countP (SplitsRemark ·) := by
  have hcount : ∀ {a : Char}, isBrace a →
      (codeOfAll false (Source.lines (Source.format x))).count a =
        (codeOfAll false (Source.lines x)).count a +
          (codeLines x).countP (fun t => SplitsRemark t ∧ a = '}') := by
    intro a ha
    obtain ⟨out, i, j, hf, hx⟩ := collect_format (fun _ => []) braces (by rfl)
      (fun s hr hw _ => braces_braced hr hw) x
    have hblanks : ∀ k, (List.replicate k ([] : List Char)).flatten = [] := by simp
    rw [hblanks, List.append_nil] at hf hx
    rw [count_codeOfAll ha, count_codeOfAll ha, hf, ← hx]
    refine count_collect fun t ht => ?_
    simpa using count_outputs ha (trim_of_mem_codeLines ht) (no_newline_of_mem_codeLines ht)
  refine ⟨?_, ?_⟩
  · rw [hcount (by decide), List.countP_eq_zero.2 fun t _ => by simp, Nat.add_zero]
  · simpa using hcount (a := '}') (by decide)

end SchemaLint.Layout
