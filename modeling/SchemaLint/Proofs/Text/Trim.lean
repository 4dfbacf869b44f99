import Mathlib.Data.List.DropRight
import Mathlib.Data.List.TakeWhile
import SchemaLint.Text.Scan

/-! Runs of white space, and trimming as cutting one off at either end. -/

namespace SchemaLint.Text

/-- Quantifiers over the characters of a text are decided on the text, not on all characters. -/
instance (priority := high) decidableForallMem (s : List Char) (p : Char → Prop)
    [DecidablePred p] : Decidable (∀ c ∈ s, p c) := List.decidableBAll p s

instance (priority := high) decidableForallMem? (o : Option Char) (p : Char → Prop)
    [DecidablePred p] : Decidable (∀ c ∈ o, p c) := Option.decidableForallMem o

/-- White space only; the empty text counts. -/
def Blank (s : List Char) : Prop := ∀ c ∈ s, isBlank c

def StartsSolid (s : List Char) : Prop := ∀ c ∈ s.head?, isBlank c = false

def EndsSolid (s : List Char) : Prop := ∀ c ∈ s.getLast?, isBlank c = false

instance (s : List Char) : Decidable (Blank s) := inferInstanceAs (Decidable (∀ c ∈ s, _))

instance (s : List Char) : Decidable (StartsSolid s) :=
  inferInstanceAs (Decidable (∀ c ∈ s.head?, _))

instance (s : List Char) : Decidable (EndsSolid s) :=
  inferInstanceAs (Decidable (∀ c ∈ s.getLast?, _))

@[simp] theorem Blank.nil : Blank [] := by simp [Blank]

@[simp] theorem blank_cons {c : Char} {s : List Char} :
    Blank (c :: s) ↔ isBlank c ∧ Blank s := by simp [Blank]

@[simp] theorem blank_append {s t : List Char} : Blank (s ++ t) ↔ Blank s ∧ Blank t := by
  simp only [Blank, List.mem_append]
  constructor
  · intro h
    exact ⟨fun c hc => h c (.inl hc), fun c hc => h c (.inr hc)⟩
  · rintro ⟨hs, ht⟩ c (hc | hc)
    · exact hs c hc
    · exact ht c hc

theorem Blank.exists_mem {s : List Char} (h : Blank s) (hn : s ≠ []) : ∃ c ∈ s, isBlank c := by
  obtain ⟨c, hc⟩ := List.exists_mem_of_ne_nil s hn
  exact ⟨c, hc, h c hc⟩

theorem Blank.not_mem {s : List Char} (h : Blank s) {c : Char} (hc : isBlank c = false) :
    c ∉ s := by
  intro hm
  rw [h c hm] at hc
  cases hc

theorem blank_replicate (n : Nat) : Blank (List.replicate n ' ') := by
  intro c hc
  rw [List.eq_of_mem_replicate hc]
  decide

@[simp] theorem StartsSolid.nil : StartsSolid [] := by simp [StartsSolid]

@[simp] theorem startsSolid_cons {c : Char} {s : List Char} :
    StartsSolid (c :: s) ↔ isBlank c = false := by simp [StartsSolid]

@[simp] theorem EndsSolid.nil : EndsSolid [] := by simp [EndsSolid]

@[simp] theorem endsSolid_concat {c : Char} {s : List Char} :
    EndsSolid (s ++ [c]) ↔ isBlank c = false := by simp [EndsSolid]

theorem EndsSolid.of_getLast? {s : List Char} {c : Char} (h : s.getLast? = some c)
    (hc : isBlank c = false) : EndsSolid s := by
  intro d hd
  rw [h] at hd
  cases hd
  exact hc

theorem endsSolid_append {s t : List Char} (ht : t ≠ []) :
    EndsSolid (s ++ t) ↔ EndsSolid t := by
  simp [EndsSolid, List.getLast?_append_of_ne_nil _ ht]

theorem startsSolid_append {s t : List Char} (hs : s ≠ []) :
    StartsSolid (s ++ t) ↔ StartsSolid s := by
  simp [StartsSolid, List.head?_append_of_ne_nil _ hs]

theorem solid_of_forall {s : List Char} (h : ∀ c ∈ s, isBlank c = false) :
    StartsSolid s ∧ EndsSolid s :=
  ⟨fun c hc => h c (List.mem_of_head? hc), fun c hc => h c (List.mem_of_getLast? hc)⟩

theorem EndsSolid.of_cons {c : Char} {s : List Char} (h : EndsSolid (c :: s)) : EndsSolid s := by
  cases s with
  | nil => simp
  | cons d s => exact (endsSolid_append (s := [c]) (by simp)).1 h

theorem trimStart_append {g s : List Char} (h : Blank g) : trimStart (g ++ s) = trimStart s :=
  List.dropWhile_append_of_pos h

theorem trimStart_eq_self_iff {s : List Char} : trimStart s = s ↔ StartsSolid s := by
  cases s with
  | nil => simp
  | cons c s =>
      cases h : isBlank c with
      | false => simp [trimStart, h]
      | true =>
          simp only [trimStart, h, List.dropWhile_cons_of_pos, startsSolid_cons, Bool.true_eq_false,
            iff_false]
          intro he
          have := (List.dropWhile_suffix (l := s) isBlank).length_le
          rw [he, List.length_cons] at this
          omega

theorem StartsSolid.trimStart {s : List Char} (h : StartsSolid s) : trimStart s = s :=
  trimStart_eq_self_iff.2 h

theorem blank_append_cancel {g k s t : List Char} (hg : Blank g) (hk : Blank k)
    (hs : StartsSolid s) (ht : StartsSolid t) (h : g ++ s = k ++ t) : s = t := by
  have htrim := congrArg Text.trimStart h
  rwa [trimStart_append hg, trimStart_append hk, hs.trimStart, ht.trimStart] at htrim

theorem startsSolid_trimStart (s : List Char) : StartsSolid (trimStart s) :=
  trimStart_eq_self_iff.1 (List.dropWhile_idempotent isBlank s)

theorem exists_trimStart (s : List Char) : ∃ g, Blank g ∧ s = g ++ trimStart s :=
  ⟨s.takeWhile isBlank, fun _ h => List.mem_takeWhile_imp h,
    List.takeWhile_append_dropWhile.symm⟩

theorem trimStart_eq_nil_iff {s : List Char} : trimStart s = [] ↔ Blank s :=
  List.dropWhile_eq_nil_iff

theorem trimStart_append_of_not_blank {s : List Char} (h : ¬ Blank s) (t : List Char) :
    trimStart (s ++ t) = trimStart s ++ t := by
  obtain ⟨g, hg, he⟩ := exists_trimStart s
  have hne : trimStart s ≠ [] := fun hn => h (trimStart_eq_nil_iff.1 hn)
  have hs : StartsSolid (trimStart s ++ t) :=
    (startsSolid_append hne).2 (startsSolid_trimStart s)
  rw [he, List.append_assoc, trimStart_append hg, hs.trimStart, trimStart_append hg,
    (startsSolid_trimStart s).trimStart]

theorem trimEnd_append {s g : List Char} (h : Blank g) : trimEnd (s ++ g) = trimEnd s := by
  have hg : Blank g.reverse := fun c hc => h c (List.mem_reverse.1 hc)
  simp only [trimEnd, List.reverse_append, trimStart_append hg]

theorem trimEnd_eq_self_iff {s : List Char} : trimEnd s = s ↔ EndsSolid s := by
  have h : EndsSolid s ↔ StartsSolid s.reverse := by
    simp only [EndsSolid, StartsSolid, List.head?_reverse]
  rw [h, ← trimStart_eq_self_iff, trimEnd, List.reverse_eq_iff]

theorem EndsSolid.trimEnd {s : List Char} (h : EndsSolid s) : trimEnd s = s :=
  trimEnd_eq_self_iff.2 h

theorem endsSolid_trimEnd (s : List Char) : EndsSolid (trimEnd s) :=
  trimEnd_eq_self_iff.1 (List.rdropWhile_idempotent isBlank s)

theorem exists_trimEnd (s : List Char) : ∃ g, Blank g ∧ s = trimEnd s ++ g :=
  ⟨s.rtakeWhile isBlank, fun _ h => List.mem_rtakeWhile_imp h,
    List.rdropWhile_append_rtakeWhile.symm⟩

theorem trimEnd_eq_nil_iff {s : List Char} : trimEnd s = [] ↔ Blank s := by
  constructor
  · intro h
    obtain ⟨g, hg, he⟩ := exists_trimEnd s
    rw [h, List.nil_append] at he
    rwa [he]
  · exact fun h => trimEnd_append (s := []) h

theorem trimEnd_isPrefix (s : List Char) : trimEnd s <+: s :=
  List.rdropWhile_prefix isBlank s

theorem trimEnd_append_of_not_blank (s : List Char) {t : List Char} (h : ¬ Blank t) :
    trimEnd (s ++ t) = s ++ trimEnd t := by
  have hr : ¬ Blank t.reverse := fun hb => h fun c hc => hb c (List.mem_reverse.2 hc)
  simp only [trimEnd, List.reverse_append, trimStart_append_of_not_blank hr, List.reverse_reverse]

theorem trimEnd_cons {c : Char} (h : isBlank c = false) (s : List Char) :
    trimEnd (c :: s) = c :: trimEnd s := by
  obtain ⟨g, hg, he⟩ := exists_trimEnd s
  have hs : EndsSolid (c :: trimEnd s) := by
    by_cases hn : trimEnd s = []
    · rw [hn]; exact endsSolid_concat (s := []).2 h
    · exact (endsSolid_append (s := [c]) hn).2 (endsSolid_trimEnd s)
  calc trimEnd (c :: s) = trimEnd ((c :: trimEnd s) ++ g) := by rw [List.cons_append, ← he]
    _ = c :: trimEnd s := by rw [trimEnd_append hg, hs.trimEnd]

theorem StartsSolid.trimEnd {s : List Char} (h : StartsSolid s) : StartsSolid (trimEnd s) := by
  cases s with
  | nil => simp
  | cons c s =>
      rw [startsSolid_cons] at h
      rw [trimEnd_cons h]
      exact startsSolid_cons.2 h

theorem trimEnd_append_of_solid {s : List Char} (hs : EndsSolid s) (t : List Char) :
    trimEnd (s ++ t) = s ++ trimEnd t := by
  by_cases ht : Blank t
  · rw [trimEnd_append ht, hs.trimEnd, trimEnd_eq_nil_iff.2 ht, List.append_nil]
  · exact trimEnd_append_of_not_blank s ht

theorem not_blank_of_endsSolid {s : List Char} (hn : s ≠ []) (hs : EndsSolid s) : ¬ Blank s := by
  intro hb
  have hc := hs _ (List.getLast?_eq_some_getLast hn)
  rw [hb _ (List.getLast_mem hn)] at hc
  cases hc

theorem not_blank_of_startsSolid {s : List Char} (hn : s ≠ []) (hs : StartsSolid s) :
    ¬ Blank s := by
  intro hb
  have hc := hs _ (List.head?_eq_some_head hn)
  rw [hb _ (List.head_mem hn)] at hc
  cases hc

theorem EndsSolid.trimStart {s : List Char} (h : EndsSolid s) : EndsSolid (trimStart s) := by
  by_cases hn : Text.trimStart s = []
  · simp [hn]
  · obtain ⟨g, -, he⟩ := exists_trimStart s
    rw [he, endsSolid_append hn] at h
    exact h

theorem startsSolid_trim (s : List Char) : StartsSolid (trim s) :=
  (startsSolid_trimStart s).trimEnd

theorem endsSolid_trim (s : List Char) : EndsSolid (trim s) :=
  endsSolid_trimEnd _

theorem trim_eq_self_iff {s : List Char} : trim s = s ↔ StartsSolid s ∧ EndsSolid s := by
  constructor
  · intro h
    rw [← h]
    exact ⟨startsSolid_trim s, endsSolid_trim s⟩
  · rintro ⟨hs, he⟩
    rw [trim, hs.trimStart, he.trimEnd]

@[simp] theorem trim_trim (s : List Char) : trim (trim s) = trim s :=
  trim_eq_self_iff.2 ⟨startsSolid_trim s, endsSolid_trim s⟩

theorem exists_trim (s : List Char) : ∃ g h, Blank g ∧ Blank h ∧ s = g ++ trim s ++ h := by
  obtain ⟨g, hg, es⟩ := exists_trimStart s
  obtain ⟨h, hh, et⟩ := exists_trimEnd (trimStart s)
  refine ⟨g, h, hg, hh, ?_⟩
  rw [trim, List.append_assoc, ← et]
  exact es

theorem trim_append_left {g s : List Char} (h : Blank g) : trim (g ++ s) = trim s := by
  rw [trim, trimStart_append h, trim]

theorem trim_eq_nil_iff {s : List Char} : trim s = [] ↔ Blank s := by
  constructor
  · intro h
    obtain ⟨g, k, hg, hk, he⟩ := exists_trim s
    rw [he, h]
    exact blank_append.2 ⟨blank_append.2 ⟨hg, .nil⟩, hk⟩
  · intro h
    rw [trim, trimStart_eq_nil_iff.2 h, trimEnd_nil]

theorem mem_of_mem_trim {c : Char} {s : List Char} (h : c ∈ trim s) : c ∈ s := by
  obtain ⟨g, k, -, -, he⟩ := exists_trim s
  rw [he]
  exact List.mem_append_left _ (List.mem_append_right _ h)

theorem append_blank_inj {s s' t t' : List Char} {b b' : Char}
    (hs : ∀ c ∈ s, isBlank c = false) (hs' : ∀ c ∈ s', isBlank c = false) (hb : isBlank b)
    (hb' : isBlank b') (h : s ++ b :: t = s' ++ b' :: t') : s = s' ∧ b :: t = b' :: t' := by
  induction s generalizing s' with
  | nil =>
      cases s' with
      | nil => exact ⟨rfl, h⟩
      | cons c s' =>
          rw [(List.cons.inj h).1, hs' c (List.mem_cons_self ..)] at hb
          cases hb
  | cons c s ih =>
      obtain ⟨hc, hs⟩ := List.forall_mem_cons.1 hs
      cases s' with
      | nil =>
          rw [← (List.cons.inj h).1, hc] at hb'
          cases hb'
      | cons d s' =>
          obtain ⟨rfl, hst⟩ := List.cons.inj h
          obtain ⟨rfl, ht⟩ := ih hs (List.forall_mem_cons.1 hs').2 hst
          exact ⟨rfl, ht⟩

theorem exists_first_blank {s : List Char} (h : ∃ c ∈ s, isBlank c) :
    ∃ t b u, (∀ c ∈ t, isBlank c = false) ∧ isBlank b ∧ s = t ++ b :: u := by
  induction s with
  | nil =>
      obtain ⟨c, hc, -⟩ := h
      cases hc
  | cons c s ih =>
      cases hc : isBlank c with
      | true => exact ⟨[], c, s, by simp, hc, rfl⟩
      | false =>
          obtain ⟨d, hd, hb⟩ := h
          have hs : ∃ d ∈ s, isBlank d := by
            rcases List.mem_cons.1 hd with rfl | hd
            · rw [hc] at hb
              cases hb
            · exact ⟨d, hd, hb⟩
          obtain ⟨t, b, u, ht, hb, rfl⟩ := ih hs
          exact ⟨c :: t, b, u, List.forall_mem_cons.2 ⟨hc, ht⟩, hb, rfl⟩

end SchemaLint.Text
