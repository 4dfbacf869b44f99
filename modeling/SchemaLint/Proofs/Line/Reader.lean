import SchemaLint.Line.Shape
import SchemaLint.Proofs.Text.Trim

/-! Readers of text and of line starts: what they accept, as equations between texts. -/

namespace SchemaLint.Text

theorem afterBlanks?_eq_some_iff {s rest : List Char} :
    afterBlanks? s = some rest ↔
      ∃ g, g ≠ [] ∧ Blank g ∧ StartsSolid rest ∧ s = g ++ rest := by
  constructor
  · intro h
    cases s with
    | nil => cases h
    | cons c s =>
        rw [afterBlanks?] at h
        split at h
        case isTrue hc =>
            obtain ⟨g, hg, he⟩ := exists_trimStart s
            cases h
            exact ⟨c :: g, by simp, blank_cons.2 ⟨hc, hg⟩, startsSolid_trimStart s,
              congrArg (c :: ·) he⟩
        case isFalse => cases h
  · rintro ⟨g, hn, hg, hr, rfl⟩
    cases g with
    | nil => exact absurd rfl hn
    | cons c g =>
        obtain ⟨hc, hg⟩ := blank_cons.1 hg
        rw [List.cons_append, afterBlanks?, if_pos hc, trimStart_append hg, hr.trimStart]

theorem until?_eq_some_iff {mark : Char} {s front rest : List Char} :
    until? mark s = some (front, rest) ↔ mark ∉ front ∧ s = front ++ mark :: rest := by
  have hs := List.takeWhile_append_dropWhile (p := (· != mark)) (l := s)
  have hfront : mark ∉ s.takeWhile (· != mark) := fun h => by
    simpa using List.mem_takeWhile_imp h
  rw [until?]
  cases hd : s.dropWhile (· != mark) with
  | nil =>
      rw [hd, List.append_nil] at hs
      constructor
      · intro h; cases h
      · rintro ⟨-, he⟩
        rw [hs, he] at hfront
        exact absurd (List.mem_append_right _ (List.mem_cons_self ..)) hfront
  | cons c r =>
      have hc : c = mark := by
        have := List.head_dropWhile_not (· != mark) (l := s) (by simp [hd])
        simpa [hd] using this
      subst hc
      rw [hd] at hs
      constructor
      · intro h
        simp only [Option.some.injEq, Prod.mk.injEq] at h
        obtain ⟨rfl, rfl⟩ := h
        exact ⟨hfront, hs.symm⟩
      · rintro ⟨hf, he⟩
        have hall : ∀ x ∈ front, (x != c) = true := by
          intro x hx
          simp only [bne_iff_ne, ne_eq]
          rintro rfl
          exact hf hx
        have htake : s.takeWhile (· != c) = front := by
          rw [he, List.takeWhile_append_of_pos hall]
          simp
        have hdrop : s.dropWhile (· != c) = c :: rest := by
          rw [he, List.dropWhile_append_of_pos hall]
          simp
        rw [hd] at hdrop
        cases hdrop
        rw [htake]

end SchemaLint.Text

namespace SchemaLint.Line
open SchemaLint.Text

theorem afterKeyword?_eq_some_iff {keyword : String} {s rest : List Char} :
    afterKeyword? [keyword] s = some rest ↔
      ∃ g, g ≠ [] ∧ Blank g ∧ StartsSolid rest ∧ s = keyword.toList ++ (g ++ rest) := by
  simp only [afterKeyword?, List.findSome?_cons, List.findSome?_nil]
  constructor
  · intro h
    have h' : (after? keyword.toList s).bind afterBlanks? = some rest := by
      cases hb : (after? keyword.toList s).bind afterBlanks? with
      | none => simp [hb] at h
      | some r => simpa [hb] using h
    obtain ⟨r, hr, hb⟩ := Option.bind_eq_some_iff.1 h'
    obtain ⟨g, hn, hg, hs, rfl⟩ := afterBlanks?_eq_some_iff.1 hb
    exact ⟨g, hn, hg, hs, after?_eq_some_iff.1 hr⟩
  · rintro ⟨g, hn, hg, hs, rfl⟩
    rw [after?_append, Option.bind_some, afterBlanks?_eq_some_iff.2 ⟨g, hn, hg, hs, rfl⟩]

theorem afterKeyword?_isSome_iff {keyword : String} {s : List Char} :
    (afterKeyword? [keyword] s).isSome ↔ ∃ b t, isBlank b ∧ s = keyword.toList ++ b :: t := by
  rw [Option.isSome_iff_exists]
  constructor
  · rintro ⟨rest, h⟩
    obtain ⟨g, hn, hg, -, rfl⟩ := afterKeyword?_eq_some_iff.1 h
    cases g with
    | nil => exact absurd rfl hn
    | cons b g => exact ⟨b, g ++ rest, (blank_cons.1 hg).1, rfl⟩
  · rintro ⟨b, t, hb, rfl⟩
    obtain ⟨g, hg, he⟩ := exists_trimStart t
    exact ⟨trimStart t, afterKeyword?_eq_some_iff.2
      ⟨b :: g, by simp, blank_cons.2 ⟨hb, hg⟩, startsSolid_trimStart t,
        by rw [List.cons_append, ← he]⟩⟩

/-- A text that starts with solid characters and a blank starts with a keyword if these are it. -/
theorem afterKeyword?_append {keyword : String} {s t : List Char} {b : Char}
    (hk : ∀ c ∈ keyword.toList, isBlank c = false) (hs : ∀ c ∈ s, isBlank c = false)
    (hb : isBlank b) :
    afterKeyword? [keyword] (s ++ b :: t) =
      if keyword.toList = s then some (trimStart t) else none := by
  split
  case isTrue h =>
      obtain ⟨g, hg, he⟩ := exists_trimStart t
      refine afterKeyword?_eq_some_iff.2
        ⟨b :: g, by simp, blank_cons.2 ⟨hb, hg⟩, startsSolid_trimStart t, ?_⟩
      rw [h, List.cons_append, ← he]
  case isFalse h =>
      refine Option.not_isSome_iff_eq_none.1 fun hsome => h ?_
      obtain ⟨b', t', hb', he⟩ := afterKeyword?_isSome_iff.1 hsome
      exact (append_blank_inj hs hk hb hb' he).1.symm

theorem afterEquals?_eq_some_iff {s rest : List Char} :
    afterEquals? s = some rest ↔
      ∃ g h, Blank g ∧ Blank h ∧ StartsSolid rest ∧ s = g ++ '=' :: (h ++ rest) := by
  obtain ⟨g, hg, he⟩ := exists_trimStart s
  constructor
  · intro h
    rw [afterEquals?] at h
    split at h
    case h_1 r hr =>
        obtain ⟨k, hk, hk'⟩ := exists_trimStart r
        cases h
        rw [hr, hk'] at he
        exact ⟨g, k, hg, hk, startsSolid_trimStart r, he⟩
    case h_2 => cases h
  · rintro ⟨g, h, hg, hh, hr, rfl⟩
    have : trimStart (g ++ '=' :: (h ++ rest)) = '=' :: (h ++ rest) := by
      rw [trimStart_append hg]
      exact trimStart_eq_self_iff.2 (by simp; decide)
    rw [afterEquals?, this]
    exact congrArg some (by rw [trimStart_append hh, hr.trimStart])

end SchemaLint.Line
