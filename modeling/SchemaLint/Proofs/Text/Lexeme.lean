import Mathlib.Data.List.SplitBy
import SchemaLint.Proofs.Text.Trim
import SchemaLint.Text.Class

/-! Lexemes: the words of a text and its other visible characters, in order. White space only
keeps words apart, so it may grow or go wherever no two words meet. -/

namespace SchemaLint.Text

/-- The maximal runs of word characters, and each other character that is not white space. -/
def lexemes (s : List Char) : List (List Char) :=
  (s.splitBy fun a b => isWord a && isWord b).filter fun part => !part.all isBlank

/-- The white space beyond ASCII. -/
def wideBlanks : List Nat :=
  [0x85, 0xa0, 0x1680, 0x2000, 0x2001, 0x2002, 0x2003, 0x2004, 0x2005, 0x2006, 0x2007, 0x2008,
    0x2009, 0x200a, 0x2028, 0x2029, 0x202f, 0x205f, 0x3000]

theorem mem_wideBlanks {c : Char} (h : isBlank c) (hc : 128 ≤ c.toNat) : c.toNat ∈ wideBlanks := by
  simp only [isBlank, Bool.or_eq_true, Bool.and_eq_true, decide_eq_true_eq, beq_iff_eq] at h
  simp only [wideBlanks, List.mem_cons, List.not_mem_nil, or_false]
  omega

theorem wideBlanks_not_word : ∀ n ∈ wideBlanks, inRanges n wordRanges = false := by
  decide +kernel

theorem toNat_of_isAlphanum {c : Char} (h : c.isAlphanum) :
    (48 ≤ c.toNat ∧ c.toNat ≤ 57) ∨ (65 ≤ c.toNat ∧ c.toNat ≤ 90) ∨
      (97 ≤ c.toNat ∧ c.toNat ≤ 122) := by
  change (decide (65 ≤ c.val ∧ c.val ≤ 90) || (97 ≤ c.val && c.val ≤ 122) ||
    (48 ≤ c.val && c.val ≤ 57)) = true at h
  simp only [Bool.or_eq_true, Bool.and_eq_true, decide_eq_true_eq, UInt32.le_iff_toNat_le] at h
  change ((65 ≤ c.toNat ∧ c.toNat ≤ 90) ∨ (97 ≤ c.toNat ∧ c.toNat ≤ 122)) ∨
    (48 ≤ c.toNat ∧ c.toNat ≤ 57) at h
  omega

theorem toNat_of_isWord {c : Char} (h : isWord c) (hc : c.toNat < 128) :
    (48 ≤ c.toNat ∧ c.toNat ≤ 57) ∨ (65 ≤ c.toNat ∧ c.toNat ≤ 90) ∨
      (97 ≤ c.toNat ∧ c.toNat ≤ 122) ∨ c.toNat = 95 := by
  rw [isWord, if_pos hc, Bool.or_eq_true, beq_iff_eq] at h
  rcases h with h | rfl
  · have := toNat_of_isAlphanum h
    omega
  · exact .inr (.inr (.inr rfl))

theorem isWord_of_isBlank {c : Char} (h : isBlank c) : isWord c = false := by
  by_cases hc : c.toNat < 128
  · by_contra hw
    have hr := toNat_of_isWord (Bool.not_eq_false _ ▸ hw) hc
    simp only [isBlank, Bool.or_eq_true, Bool.and_eq_true, decide_eq_true_eq, beq_iff_eq] at h
    omega
  · rw [isWord, if_neg hc]
    exact wideBlanks_not_word _ (mem_wideBlanks h (Nat.not_lt.1 hc))

theorem isBlank_of_isWord {c : Char} (h : isWord c) : isBlank c = false := by
  cases hb : isBlank c with
  | false => rfl
  | true => rw [isWord_of_isBlank hb] at h; cases h

theorem not_word_of_blank {g : List Char} (hn : g ≠ []) (hg : Blank g) (t : List Char) :
    ∀ c ∈ (g ++ t).head?, isWord c = false := by
  intro c hc
  rw [List.head?_append_of_ne_nil _ hn] at hc
  exact isWord_of_isBlank (hg c (List.mem_of_head? hc))

theorem not_word_of_blank_cons {g : List Char} {m : Char} (hg : Blank g) (hm : isWord m = false)
    (t : List Char) : ∀ c ∈ (g ++ m :: t).head?, isWord c = false := by
  cases g with
  | nil =>
      intro c hc
      cases hc
      exact hm
  | cons b g => exact not_word_of_blank (by simp) hg (m :: t)

/-- No word runs on from the one text into the other. -/
def Apart (s t : List Char) : Prop :=
  ∀ a ∈ s.getLast?, ∀ b ∈ t.head?, (isWord a && isWord b) = false

theorem Apart.of_head {s t : List Char} (h : ∀ b ∈ t.head?, isWord b = false) : Apart s t := by
  intro a _ b hb
  rw [h b hb, Bool.and_false]

theorem Apart.of_last {s t : List Char} (h : ∀ a ∈ s.getLast?, isWord a = false) : Apart s t := by
  intro a ha b _
  rw [h a ha, Bool.false_and]

@[simp] theorem lexemes_nil : lexemes [] = [] := by simp [lexemes]

theorem lexemes_append {s t : List Char} (h : Apart s t) :
    lexemes (s ++ t) = lexemes s ++ lexemes t := by
  rw [lexemes, List.splitBy_append h, List.filter_append, ← lexemes, ← lexemes]

theorem lexemes_blank {g : List Char} (h : Blank g) : lexemes g = [] := by
  rw [lexemes, List.filter_eq_nil_iff]
  intro part hp
  have hall : ∀ c ∈ part, isBlank c := fun c hc =>
    h c (by rw [← List.flatten_splitBy (fun a b => isWord a && isWord b) g]
            exact List.mem_flatten.2 ⟨part, hp, hc⟩)
  simpa using hall

theorem lexemes_eq_nil_iff {s : List Char} : lexemes s = [] ↔ Blank s := by
  constructor
  · intro h c hc
    rw [← List.flatten_splitBy (fun a b => isWord a && isWord b) s, List.mem_flatten] at hc
    obtain ⟨part, hp, hc⟩ := hc
    rw [lexemes, List.filter_eq_nil_iff] at h
    have hall : part.all isBlank := by simpa using h part hp
    exact List.all_eq_true.1 hall c hc
  · exact lexemes_blank

theorem apart_blank_left {g s : List Char} (h : Blank g) : Apart g s :=
  .of_last fun a ha => isWord_of_isBlank (h a (List.mem_of_getLast? ha))

theorem apart_blank_right {s g : List Char} (h : Blank g) : Apart s g :=
  .of_head fun b hb => isWord_of_isBlank (h b (List.mem_of_head? hb))

theorem lexemes_blank_append {g s : List Char} (h : Blank g) : lexemes (g ++ s) = lexemes s := by
  rw [lexemes_append (apart_blank_left h), lexemes_blank h, List.nil_append]

theorem lexemes_append_blank {s g : List Char} (h : Blank g) : lexemes (s ++ g) = lexemes s := by
  rw [lexemes_append (apart_blank_right h), lexemes_blank h, List.append_nil]

@[simp] theorem lexemes_trim (s : List Char) : lexemes (trim s) = lexemes s := by
  obtain ⟨g, k, hg, hk, he⟩ := exists_trim s
  conv_rhs => rw [he, lexemes_append_blank hk, lexemes_blank_append hg]

theorem lexemes_append_cons_blank (s t : List Char) {c : Char} (h : isBlank c) :
    lexemes (s ++ c :: t) = lexemes s ++ lexemes t := by
  have hc : Blank [c] := by simp [h]
  have hw : isWord c = false := isWord_of_isBlank h
  rw [lexemes_append (.of_head (by simpa using hw)), ← List.singleton_append,
    lexemes_blank_append hc]

theorem lexemes_intercalate (lines : List (List Char)) :
    lexemes (['\n'].intercalate lines) = lines.flatMap lexemes := by
  induction lines with
  | nil => simp
  | cons l ls ih =>
      cases ls with
      | nil => simp
      | cons m ls =>
          rw [List.intercalate_cons_cons, List.append_assoc, List.singleton_append,
            lexemes_append_cons_blank _ _ (by decide), ih]
          simp only [List.flatMap_cons]

theorem lexemes_flatMap_lines (lines : List (List Char)) :
    lexemes (lines.flatMap (· ++ ['\n'])) = lines.flatMap lexemes := by
  induction lines with
  | nil => simp
  | cons l ls ih =>
      rw [List.flatMap_cons, List.append_assoc, List.singleton_append,
        lexemes_append_cons_blank _ _ (by decide), ih, List.flatMap_cons]

end SchemaLint.Text
