import SchemaLint.Proofs.Line.Reader
import SchemaLint.Proofs.Line.Respacing

/-! The compact form of a text: no white space beside a mark, and one space for every other run of
it. Texts that are respacings of each other have one compact form, so whatever can be read off the
compact form outlasts respacing. -/

namespace SchemaLint.Line
open SchemaLint.Text

/-- Neither white space nor a mark. -/
def isFirm (c : Char) : Bool :=
  !isBlank c && !isMark c

def press (c : Char) (rest : List Char) : List Char :=
  if isBlank c then
    if rest.head?.any fun d => isBlank d || isMark d then rest else ' ' :: rest
  else if isMark c then c :: trimStart rest
  else c :: rest

/-- The text without the white space beside marks, any other white space being a single space. -/
def compact (s : List Char) : List Char :=
  s.foldr press []

theorem isFirm_iff {c : Char} : isFirm c ↔ isBlank c = false ∧ isMark c = false := by
  simp [isFirm]

theorem isFirm_of_isWord {c : Char} (h : isWord c) : isFirm c :=
  isFirm_iff.2 ⟨isBlank_of_isWord h, isMark_of_isWord h⟩

theorem isBlank_of_isFirm {c : Char} (h : isFirm c) : isBlank c = false :=
  (isFirm_iff.1 h).1

theorem isMark_of_isFirm {c : Char} (h : isFirm c) : isMark c = false :=
  (isFirm_iff.1 h).2

@[simp] theorem compact_nil : compact [] = [] := rfl

theorem compact_cons (c : Char) (s : List Char) : compact (c :: s) = press c (compact s) := by
  rw [compact, List.foldr_cons, compact]

theorem press_firm {c : Char} (h : isFirm c) (rest : List Char) : press c rest = c :: rest := by
  rw [press, isBlank_of_isFirm h, isMark_of_isFirm h, if_neg Bool.false_ne_true,
    if_neg Bool.false_ne_true]

theorem press_mark {m : Char} (h : isMark m) (rest : List Char) :
    press m rest = m :: trimStart rest := by
  rw [press, isBlank_of_isMark h, if_neg Bool.false_ne_true, if_pos h]

theorem press_solid {c : Char} (h : isBlank c = false) (rest : List Char) :
    press c rest = c :: rest ∨ press c rest = c :: trimStart rest := by
  by_cases hm : isMark c
  · exact .inr (press_mark hm rest)
  · exact .inl (press_firm (isFirm_iff.2 ⟨h, eq_false_of_ne_true hm⟩) rest)

theorem press_blank {b : Char} (h : isBlank b) (rest : List Char) :
    press b rest = rest ∧ (∃ d ∈ rest.head?, isBlank d ∨ isMark d) ∨
      press b rest = ' ' :: rest ∧ ∀ d ∈ rest.head?, isFirm d := by
  rw [press, if_pos h]
  cases rest with
  | nil => exact .inr ⟨rfl, nofun⟩
  | cons d rest =>
      by_cases hd : isBlank d || isMark d
      · exact .inl ⟨if_pos (by simpa using hd), d, rfl, by simpa using hd⟩
      · refine .inr ⟨if_neg (by simpa using hd), fun e he => ?_⟩
        cases he
        simpa [isFirm] using hd

theorem press_space {b : Char} (h : isBlank b) (rest : List Char) :
    press b rest = press ' ' rest := by
  rw [press, press, if_pos h, if_pos (show isBlank ' ' by decide)]

theorem press_blank_twice {b : Char} (h : isBlank b) (rest : List Char) :
    press b (press ' ' rest) = press ' ' rest := by
  rcases press_blank (b := ' ') (by decide) rest with ⟨he, hd⟩ | ⟨he, -⟩
  · rw [he, press_space h, he]
  · rw [he, press, if_pos h]
    exact if_pos rfl

theorem head?_compact {c : Char} (h : isBlank c = false) (s : List Char) :
    (compact (c :: s)).head? = some c := by
  rw [compact_cons]
  rcases press_solid h (compact s) with he | he <;> rw [he] <;> rfl

theorem startsSolid_compact {s : List Char} (h : StartsSolid s) :
    (compact s).head? = s.head? := by
  cases s with
  | nil => rfl
  | cons c s => exact head?_compact (startsSolid_cons.1 h) s

/-- What white space or a mark leads starts with no firm character. -/
theorem head?_compact_of_not {c : Char} (h : ¬ isFirm c) (s : List Char) :
    ∀ d ∈ (compact (c :: s)).head?, ¬ isFirm d := by
  intro d hd
  by_cases hb : isBlank c
  · rw [compact_cons] at hd
    rcases press_blank hb (compact s) with ⟨he, e, hmem, hkind⟩ | ⟨he, -⟩
    · rw [he] at hd
      rw [Option.mem_def.1 hmem] at hd
      cases hd
      rw [isFirm_iff]
      rcases hkind with hkind | hkind <;> simp [hkind]
    · rw [he] at hd
      cases hd
      decide
  · rw [head?_compact (eq_false_of_ne_true hb)] at hd
    cases hd
    exact h

theorem compact_eq_nil_iff {s : List Char} : compact s = [] ↔ s = [] := by
  cases s with
  | nil => simp
  | cons c s =>
      have hne : press c (compact s) ≠ [] := by
        unfold press
        split
        · split
          case isTrue hd =>
              intro hn
              rw [hn] at hd
              cases hd
          case isFalse => simp
        · split <;> simp
      simpa [compact_cons] using hne

theorem compact_blank_append {g : List Char} (hn : g ≠ []) (hg : Blank g) (s : List Char) :
    compact (g ++ s) = press ' ' (compact s) := by
  induction g with
  | nil => exact absurd rfl hn
  | cons b g ih =>
      obtain ⟨hb, hg⟩ := blank_cons.1 hg
      rw [List.cons_append, compact_cons]
      by_cases he : g = []
      · rw [he, List.nil_append, press_space hb]
      · rw [ih he hg, press_blank_twice hb]

theorem compact_blank_mark {g : List Char} (hg : Blank g) {m : Char} (hm : isMark m)
    (s : List Char) : compact (g ++ m :: s) = compact (m :: s) := by
  by_cases hn : g = []
  · rw [hn, List.nil_append]
  · rw [compact_blank_append hn hg, compact_cons, press_mark hm]
    rcases press_blank (b := ' ') (by decide) (m :: trimStart (compact s)) with ⟨he, -⟩ | ⟨-, hd⟩
    · exact he
    · have := isMark_of_isFirm (hd m rfl)
      rw [hm] at this
      cases this

theorem trimStart_press_blank {b : Char} (h : isBlank b) (rest : List Char) :
    trimStart (press b rest) = trimStart rest := by
  rcases press_blank h rest with ⟨he, -⟩ | ⟨he, -⟩
  · rw [he]
  · rw [he]
    exact trimStart_append (g := [' ']) (by decide)

theorem trimStart_compact (s : List Char) : trimStart (compact s) = compact (trimStart s) := by
  induction s with
  | nil => rfl
  | cons c s ih =>
      cases hc : isBlank c with
      | true =>
          rw [compact_cons, trimStart_press_blank hc, ih]
          exact congrArg compact (trimStart_append (g := [c]) (by simpa [Blank] using hc)).symm
      | false =>
          have hs : StartsSolid (compact (c :: s)) := by
            intro d hd
            rw [head?_compact hc] at hd
            cases hd
            exact hc
          rw [hs.trimStart, (startsSolid_cons.2 hc).trimStart]

theorem ink_trimStart (s : List Char) : ink (trimStart s) = ink s := by
  obtain ⟨g, hg, he⟩ := exists_trimStart s
  conv_rhs => rw [he, ink_append, ink_blank hg, List.nil_append]

theorem ink_cons (c : Char) (s : List Char) : ink (c :: s) = ink [c] ++ ink s :=
  ink_append [c] s

theorem ink_cons_blank {b : Char} (h : isBlank b) (s : List Char) : ink (b :: s) = ink s := by
  rw [ink_cons, ink_blank (blank_cons.2 ⟨h, .nil⟩), List.nil_append]

theorem ink_press (c : Char) (rest : List Char) : ink (press c rest) = ink (c :: rest) := by
  cases hc : isBlank c with
  | true =>
      rw [ink_cons_blank hc]
      rcases press_blank hc rest with ⟨he, -⟩ | ⟨he, -⟩
      · rw [he]
      · rw [he, ink_cons_blank (by decide)]
  | false =>
      rcases press_solid hc rest with he | he
      · rw [he]
      · rw [he, ink_cons, ink_trimStart, ← ink_cons]

@[simp] theorem ink_compact (s : List Char) : ink (compact s) = ink s := by
  induction s with
  | nil => rfl
  | cons c s ih => rw [compact_cons, ink_press, ink_cons, ih, ← ink_cons]

theorem count_of_compact {c d : List Char} (h : compact d = compact c) {a : Char}
    (ha : isBlank a = false) : d.count a = c.count a := by
  rw [← count_ink ha, ← ink_compact d, h, ink_compact, count_ink ha]

theorem blank_compact {s : List Char} : Blank (compact s) ↔ Blank s := by
  rw [← ink_eq_nil_iff, ink_compact, ink_eq_nil_iff]

theorem trimStart_trimEnd (s : List Char) : trimStart (trimEnd s) = trimEnd (trimStart s) := by
  by_cases hs : Blank s
  · rw [trimEnd_eq_nil_iff.2 hs, trimStart_eq_nil_iff.2 hs]
    rfl
  · obtain ⟨g, hg, he⟩ := exists_trimStart s
    have hn : ¬ Blank (trimStart s) := fun hb => hs (he ▸ blank_append.2 ⟨hg, hb⟩)
    conv_lhs => rw [he, trimEnd_append_of_not_blank g hn, trimStart_append hg]
    exact (startsSolid_trimStart s).trimEnd.trimStart

theorem trimEnd_press {rest : List Char} (h : ¬ Blank rest) (c : Char) :
    trimEnd (press c rest) = press c (trimEnd rest) := by
  have hcons : ∀ d {t : List Char}, ¬ Blank t → trimEnd (d :: t) = d :: trimEnd t :=
    fun d t ht => trimEnd_append_of_not_blank [d] ht
  have hhead : (trimEnd rest).head? = rest.head? := by
    obtain ⟨t, ht⟩ := trimEnd_isPrefix rest
    have hn : trimEnd rest ≠ [] := fun hn => h (trimEnd_eq_nil_iff.1 hn)
    conv_rhs => rw [← ht, List.head?_append_of_ne_nil _ hn]
  have htrim : ¬ Blank (trimStart rest) := by
    obtain ⟨g, hg, he⟩ := exists_trimStart rest
    exact fun hb => h (he ▸ blank_append.2 ⟨hg, hb⟩)
  unfold press
  rw [hhead, trimStart_trimEnd]
  split
  · split
    · rfl
    · exact hcons ' ' h
  · split
    · exact hcons c htrim
    · exact hcons c h

theorem trimEnd_compact (s : List Char) : trimEnd (compact s) = compact (trimEnd s) := by
  induction s with
  | nil => rfl
  | cons c s ih =>
      by_cases hs : Blank s
      · have hblank := blank_compact.2 hs
        cases hc : isBlank c with
        | true =>
            have hall : Blank (c :: s) := blank_cons.2 ⟨hc, hs⟩
            rw [trimEnd_eq_nil_iff.2 hall, trimEnd_eq_nil_iff.2 (blank_compact.2 hall)]
            rfl
        | false =>
            have hsingle : compact [c] = [c] := by
              rw [compact_cons]
              rcases press_solid hc [] with he | he <;> exact he
            have hend : ∀ t, Blank t → trimEnd (c :: t) = [c] := fun t ht => by
              rw [trimEnd_cons hc, trimEnd_eq_nil_iff.2 ht]
            rw [hend s hs, hsingle, compact_cons]
            rcases press_solid hc (compact s) with he | he
            · rw [he, hend _ hblank]
            · rw [he, hend _ (by rw [trimStart_eq_nil_iff.2 hblank]; exact .nil)]
      · rw [compact_cons, trimEnd_press (fun hb => hs (blank_compact.1 hb)), ih, ← compact_cons]
        exact congrArg compact (trimEnd_append_of_not_blank [c] hs).symm

theorem trim_compact (s : List Char) : trim (compact s) = compact (trim s) := by
  rw [trim, trimStart_compact, trimEnd_compact, trim]

theorem compact_append_congr {s t : List Char} (h : compact s = compact t) (u : List Char) :
    compact (u ++ s) = compact (u ++ t) := by
  simp only [compact, List.foldr_append] at h ⊢
  rw [h]

theorem Swap.compact {wide : Bool} {k l : List Char} (h : Swap wide k l) (v : List Char) :
    compact (k ++ v) = compact (l ++ v) := by
  cases h with
  | @before g h m hm hg hh =>
      rw [List.append_assoc, List.append_assoc]
      exact (compact_blank_mark hg hm v).trans (compact_blank_mark hh.blank hm v).symm
  | @after g h m hm hg hh =>
      have key : ∀ x, Blank x → Line.compact (m :: x ++ v) = m :: Line.compact (trimStart v) := by
        intro x hx
        rw [List.cons_append, compact_cons, press_mark hm, trimStart_compact, trimStart_append hx]
      rw [key g hg, key h hh.blank]
  | within _ hg hh hng hnh =>
      rw [compact_blank_append hng hg, compact_blank_append hnh hh.blank]

theorem Respaced.compact {wide : Bool} {s t : List Char} (h : Respaced wide s t) :
    compact s = compact t := by
  induction h with
  | refl s => rfl
  | swap u v hk =>
      rw [List.append_assoc, List.append_assoc]
      exact compact_append_congr (hk.compact v) u
  | trans _ _ ih₁ ih₂ => exact ih₁.trans ih₂

theorem after?_compact {k : List Char} (hk : ∀ c ∈ k, isFirm c) (s : List Char) :
    after? k (compact s) = (after? k s).map compact := by
  induction k generalizing s with
  | nil => rfl
  | cons a k ih =>
      obtain ⟨ha, hk⟩ := List.forall_mem_cons.1 hk
      cases s with
      | nil => rfl
      | cons c s =>
          by_cases hc : isFirm c
          · rw [compact_cons, press_firm hc, after?, after?]
            split
            · exact ih hk s
            · rfl
          · have hne : a ≠ c := by rintro rfl; exact hc ha
            have hhead := head?_compact_of_not hc s
            rw [after?, if_neg hne]
            cases hs : compact (c :: s) with
            | nil => rfl
            | cons d t =>
                rw [hs] at hhead
                rw [after?, if_neg (by rintro rfl; exact hhead _ rfl ha)]
                rfl

/-- Texts with the same compact form start with the same firm characters. -/
theorem exists_of_compact_append {k s t : List Char} (hk : ∀ c ∈ k, isFirm c)
    (h : compact s = compact (k ++ t)) : ∃ u, s = k ++ u ∧ compact u = compact t := by
  have hafter := after?_compact hk s
  rw [h, after?_compact hk, after?_append, Option.map_some] at hafter
  obtain ⟨u, hu, hut⟩ := Option.map_eq_some_iff.1 hafter.symm
  exact ⟨u, after?_eq_some_iff.1 hu, hut⟩

theorem takeWhile_compact {p : Char → Bool} (hp : ∀ c, p c → isFirm c) (s : List Char) :
    (compact s).takeWhile p = s.takeWhile p ∧
      (compact s).dropWhile p = compact (s.dropWhile p) := by
  induction s with
  | nil => exact ⟨rfl, rfl⟩
  | cons c s ih =>
      by_cases hc : p c
      · rw [compact_cons, press_firm (hp c hc), List.takeWhile_cons_of_pos hc,
          List.takeWhile_cons_of_pos hc, List.dropWhile_cons_of_pos hc,
          List.dropWhile_cons_of_pos hc, ih.1, ih.2]
        exact ⟨rfl, rfl⟩
      · rw [List.takeWhile_cons_of_neg hc, List.dropWhile_cons_of_neg hc]
        have hstop : ∀ d ∈ (compact (c :: s)).head?, ¬ p d := by
          intro d hd hpd
          by_cases hf : isFirm c
          · rw [head?_compact (isBlank_of_isFirm hf)] at hd
            cases hd
            exact hc hpd
          · exact head?_compact_of_not hf s d hd (hp d hpd)
        cases hs : compact (c :: s) with
        | nil => exact ⟨rfl, rfl⟩
        | cons d t =>
            rw [hs] at hstop
            have hd : ¬ p d := hstop d rfl
            rw [List.takeWhile_cons_of_neg hd, List.dropWhile_cons_of_neg hd]
            exact ⟨rfl, rfl⟩

theorem run?_compact {p : Char → Bool} (hp : ∀ c, p c → isFirm c) (s : List Char) :
    run? p (compact s) = (run? p s).map fun r => (r.1, compact r.2) := by
  obtain ⟨htake, hdrop⟩ := takeWhile_compact hp s
  rw [run?, run?, htake, hdrop]
  cases s.takeWhile p <;> rfl

theorem eq_of_compact_eq {w s : List Char} (hw : ∀ c ∈ w, isFirm c) (h : compact s = compact w) :
    s = w := by
  obtain ⟨u, rfl, hu⟩ := exists_of_compact_append (t := []) hw (by rw [h, List.append_nil])
  rw [compact_eq_nil_iff.1 hu, List.append_nil]

theorem compact_append_cons (a : List Char) {x : Char} (hx : isBlank x = false) (b : List Char) :
    ∃ a', compact (a ++ x :: b) = a' ++ compact (x :: b) ∧ ink a' = ink a ∧
      (isFirm x → (a' = [] ↔ a = [])) := by
  induction a with
  | nil => exact ⟨[], rfl, rfl, by simp⟩
  | cons c a ih =>
      obtain ⟨a', he, hi, hn⟩ := ih
      have hsolid : StartsSolid (compact (x :: b)) := by
        intro d hd
        rw [head?_compact hx] at hd
        cases hd
        exact hx
      have hne : compact (x :: b) ≠ [] := by
        intro hnil
        have := head?_compact hx b
        rw [hnil] at this
        cases this
      rw [List.cons_append, compact_cons, he]
      cases hc : isBlank c with
      | true =>
          rw [ink_cons_blank hc]
          rcases press_blank hc (a' ++ compact (x :: b)) with ⟨hp, d, hd, hkind⟩ | ⟨hp, -⟩
          · refine ⟨a', hp, hi, fun hf => ?_⟩
            simp only [List.cons_ne_nil, iff_false]
            rintro rfl
            rw [List.nil_append, head?_compact hx] at hd
            cases hd
            rw [isFirm_iff] at hf
            simp [hf] at hkind
          · exact ⟨' ' :: a', hp, by rw [ink_cons_blank (by decide), hi], by simp⟩
      | false =>
          rcases press_solid hc (a' ++ compact (x :: b)) with hp | hp
          · exact ⟨c :: a', hp, by rw [ink_cons, hi, ← ink_cons], by simp⟩
          · refine ⟨c :: trimStart a', ?_, ?_, by simp⟩
            · rw [hp, List.cons_append]
              by_cases hb : Blank a'
              · rw [trimStart_append hb, hsolid.trimStart, trimStart_eq_nil_iff.2 hb,
                  List.nil_append]
              · rw [trimStart_append_of_not_blank hb]
            · rw [ink_cons, ink_trimStart, hi, ← ink_cons]

theorem exists_of_compact_eq {s a t : List Char} {x : Char} (hx : isBlank x = false)
    (h : compact s = a ++ x :: t) : ∃ u v, s = u ++ x :: v ∧ compact (x :: v) = x :: t := by
  induction s generalizing a with
  | nil => simp at h
  | cons c s ih =>
      have further : ∀ a, compact s = a ++ x :: t →
          ∃ u v, c :: s = u ++ x :: v ∧ compact (x :: v) = x :: t := by
        intro a ha
        obtain ⟨u, v, rfl, hv⟩ := ih ha
        exact ⟨c :: u, v, rfl, hv⟩
      rw [compact_cons] at h
      cases hc : isBlank c with
      | true =>
          rcases press_blank hc (compact s) with ⟨hp, -⟩ | ⟨hp, -⟩
          · exact further a (hp ▸ h)
          · rw [hp] at h
            cases a with
            | nil =>
                rw [← (List.cons.inj h).1] at hx
                exact absurd hx (by decide)
            | cons d a => exact further a (List.cons.inj h).2
      | false =>
          cases a with
          | nil =>
              have hhead := head?_compact hc s
              rw [compact_cons, h] at hhead
              cases hhead
              exact ⟨[], s, rfl, h⟩
          | cons d a =>
              rcases press_solid hc (compact s) with hp | hp
              · rw [hp] at h
                exact further a (List.cons.inj h).2
              · rw [hp] at h
                obtain ⟨g, -, he⟩ := exists_trimStart (compact s)
                refine further (g ++ a) ?_
                have htail : trimStart (compact s) = a ++ x :: t := (List.cons.inj h).2
                rw [he, htail, List.append_assoc]

end SchemaLint.Line
