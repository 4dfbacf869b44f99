import SchemaLint.Proofs.Line.Reader
import SchemaLint.Proofs.Text.Lexeme

/-! Fields and enum values: what their readers accept, as equations between texts. -/

namespace SchemaLint.Text

theorem digitZeros_not_wide : ∀ n ∈ wideBlanks, digitZeros.all fun start =>
    !(start ≤ n && n < start + 10) := by
  decide +kernel

theorem isBlank_of_isDigit {c : Char} (h : isDigit c) : isBlank c = false := by
  by_contra hb
  have hb := Bool.not_eq_false _ ▸ hb
  obtain ⟨v, hv⟩ := isDigit_iff.1 h
  rw [digitValue?] at hv
  split at hv
  case isTrue hc =>
      split at hv
      case isTrue hd =>
          have hw : isWord c := by
            rw [isWord, if_pos hc, Char.isAlphanum, hd, Bool.or_true, Bool.true_or]
          rw [isBlank_of_isWord hw] at hb
          cases hb
      case isFalse => cases hv
  case isFalse hc =>
      obtain ⟨start, hs, hv⟩ := List.exists_of_findSome?_eq_some hv
      have := List.all_eq_true.1 (digitZeros_not_wide _ (mem_wideBlanks hb (Nat.not_lt.1 hc))) _ hs
      split at hv
      case isTrue hr =>
          rw [hr] at this
          cases this
      case isFalse => cases hv

theorem word?_eq_some_iff {s w t : List Char} :
    word? s = some (w, t) ↔
      w ≠ [] ∧ (∀ c ∈ w, isWord c) ∧ (∀ c ∈ t.head?, isWord c = false) ∧ s = w ++ t := by
  rw [word?, run?_eq_some_iff]
  constructor
  · rintro ⟨hn, rfl, rfl⟩
    refine ⟨hn, fun c hc => List.mem_takeWhile_imp hc, ?_, List.takeWhile_append_dropWhile.symm⟩
    intro c hc
    have hd := List.head?_dropWhile_not isWord s
    rw [hc] at hd
    simpa using hd
  · rintro ⟨hn, hw, ht, rfl⟩
    have htake : t.takeWhile isWord = [] := by
      cases t with
      | nil => rfl
      | cons c t => simp [ht c rfl]
    have hdrop : t.dropWhile isWord = t := by
      cases t with
      | nil => rfl
      | cons c t => simp [ht c rfl]
    rw [List.takeWhile_append_of_pos hw, List.dropWhile_append_of_pos hw, htake, hdrop,
      List.append_nil]
    exact ⟨hn, rfl, rfl⟩

/-- Two texts that start with words are the same only if the words are. -/
theorem word_append_inj {w t v u : List Char} (hw : ∀ c ∈ w, isWord c)
    (ht : ∀ c ∈ t.head?, isWord c = false) (hv : ∀ c ∈ v, isWord c)
    (hu : ∀ c ∈ u.head?, isWord c = false) (h : w ++ t = v ++ u) : w = v ∧ t = u := by
  have stop : ∀ {r : List Char}, (∀ c ∈ r.head?, isWord c = false) → r.takeWhile isWord = [] := by
    intro r hr
    cases r with
    | nil => rfl
    | cons c r => simp [hr c rfl]
  have htake := congrArg (List.takeWhile isWord) h
  rw [List.takeWhile_append_of_pos hw, List.takeWhile_append_of_pos hv, stop ht, stop hu,
    List.append_nil, List.append_nil] at htake
  rw [htake] at h
  exact ⟨htake, List.append_cancel_left h⟩

theorem digits?_isSome_iff {s : List Char} : (digits? s).isSome ↔ ∃ c ∈ s.head?, isDigit c := by
  cases s with
  | nil => simp [digits?, run?]
  | cons c s =>
      cases hc : isDigit c <;> simp [digits?, run?, hc]

theorem digits?_append {n t : List Char} (hn : n ≠ []) (hd : ∀ c ∈ n, isDigit c)
    (ht : ∀ c ∈ t.head?, isDigit c = false) : digits? (n ++ t) = some (n, t) := by
  rw [digits?, run?_eq_some_iff, List.takeWhile_append_of_pos hd, List.dropWhile_append_of_pos hd]
  cases t with
  | nil => exact ⟨hn, List.append_nil n, rfl⟩
  | cons c t => simp [ht c rfl, hn]

end SchemaLint.Text

namespace SchemaLint.Line
open SchemaLint.Text

/-- The type of a field: words joined by single dots, or a map type. -/
inductive IsType : List Char → Prop
  | path {t : List Char} : (∀ c ∈ t, (isWord c || c == '.')) →
      ((t.splitOn '.').all fun part => !part.isEmpty) → IsType t
  | map {inner : List Char} : inner ≠ [] → '>' ∉ inner →
      IsType ("map<".toList ++ (inner ++ ['>']))

/-- A number is assigned to what stands before. -/
def AssignsNumber (t : List Char) : Prop :=
  ∃ g h c z, Blank g ∧ Blank h ∧ isDigit c ∧ t = g ++ '=' :: (h ++ c :: z)

theorem exists_afterType? {s t : List Char} (h : afterType? s = some t) :
    ∃ type, IsType type ∧ s = type ++ t := by
  unfold afterType? at h
  split at h
  case h_1 r hr =>
      obtain ⟨⟨inner, rest⟩, hu, h⟩ := Option.bind_eq_some_iff.1 h
      obtain ⟨hi, he⟩ := until?_eq_some_iff.1 hu
      dsimp only at h
      split at h
      case isTrue => cases h
      case isFalse hn =>
          cases h
          refine ⟨_, .map hn hi, ?_⟩
          rw [after?_eq_some_iff.1 hr, he]
          simp
  case h_2 =>
      dsimp only at h
      split at h
      case isTrue hp =>
          cases h
          refine ⟨_, .path (fun c hc => ?_) hp, List.takeWhile_append_dropWhile.symm⟩
          exact List.mem_takeWhile_imp (p := fun c => isWord c || c == '.') hc
      case isFalse => cases h

/-- A type that stands before the text does not go on in it. -/
def EndsType (t : List Char) : Prop :=
  ∀ c ∈ t.head?, (isWord c || c == '.') = false ∧ c ≠ '<'

theorem endsType_of_blank {g : List Char} (hn : g ≠ []) (hg : Blank g) (t : List Char) :
    EndsType (g ++ t) := by
  intro c hc
  rw [List.head?_append_of_ne_nil _ hn] at hc
  have hblank := hg c (List.mem_of_head? hc)
  refine ⟨?_, ?_⟩
  · rw [isWord_of_isBlank hblank, Bool.false_or, beq_eq_false_iff_ne]
    rintro rfl
    exact absurd hblank (by decide)
  · rintro rfl
    exact absurd hblank (by decide)

theorem endsType_of_equals {g : List Char} (hg : Blank g) (t : List Char) :
    EndsType (g ++ '=' :: t) := by
  cases g with
  | nil =>
      intro c hc
      cases hc
      exact ⟨by decide, by decide⟩
  | cons b g => exact endsType_of_blank (by simp) hg ('=' :: t)

theorem EndsType.dropWhile {t : List Char} (h : EndsType t) :
    (t.takeWhile fun c => isWord c || c == '.') = [] ∧
      (t.dropWhile fun c => isWord c || c == '.') = t := by
  cases t with
  | nil => exact ⟨rfl, rfl⟩
  | cons c t =>
      have hc := (h c rfl).1
      exact ⟨List.takeWhile_cons_of_neg (by simp [hc]), List.dropWhile_cons_of_neg (by simp [hc])⟩

theorem after?_map_of_path {type t : List Char} (h : ∀ c ∈ type, (isWord c || c == '.'))
    (ht : EndsType t) : after? "map<".toList (type ++ t) = none := by
  apply Option.eq_none_iff_forall_ne_some.2
  intro r hr
  -- the first character that is in no path ends the type on one side and is a bracket on the other
  have hdrop := congrArg (List.dropWhile fun c => isWord c || c == '.') (after?_eq_some_iff.1 hr)
  rw [List.dropWhile_append_of_pos h, ht.dropWhile.2] at hdrop
  exact (ht '<' (by rw [hdrop]; rfl)).2 rfl

theorem afterType?_append {type t : List Char} (h : IsType type) (ht : EndsType t) :
    afterType? (type ++ t) = some t := by
  cases h with
  | path hc hp =>
      obtain ⟨htake, hdrop⟩ := ht.dropWhile
      rw [afterType?, after?_map_of_path hc ht]
      dsimp only
      rw [List.takeWhile_append_of_pos hc, List.dropWhile_append_of_pos hc, htake, hdrop,
        List.append_nil, if_pos hp]
  | @map inner hn hi =>
      have hu : until? '>' (inner ++ '>' :: t) = some (inner, t) :=
        until?_eq_some_iff.2 ⟨hi, rfl⟩
      rw [afterType?, List.append_assoc, after?_append, List.append_assoc, List.singleton_append]
      dsimp only
      rw [hu, Option.bind_some]
      exact if_neg hn

theorem AssignsNumber.head {t : List Char} (h : AssignsNumber t) :
    ∀ c ∈ t.head?, isWord c = false := by
  obtain ⟨g, k, c, z, hg, -, -, rfl⟩ := h
  exact not_word_of_blank_cons hg (by decide) _

theorem AssignsNumber.ne_nil {t : List Char} (h : AssignsNumber t) : t ≠ [] := by
  obtain ⟨g, k, c, z, -, -, -, rfl⟩ := h
  simp

theorem assignsNumber_iff {t : List Char} :
    AssignsNumber t ↔ ((afterEquals? t).bind digits?).isSome := by
  rw [Option.isSome_iff_exists]
  constructor
  · rintro ⟨g, h, c, z, hg, hh, hc, rfl⟩
    have hs : StartsSolid (c :: z) := startsSolid_cons.2 (isBlank_of_isDigit hc)
    rw [afterEquals?_eq_some_iff.2 ⟨g, h, hg, hh, hs, rfl⟩, Option.bind_some]
    exact Option.isSome_iff_exists.1 (digits?_isSome_iff.2 ⟨c, rfl, hc⟩)
  · rintro ⟨r, hr⟩
    obtain ⟨rest, he, hd⟩ := Option.bind_eq_some_iff.1 hr
    obtain ⟨g, h, hg, hh, -, rfl⟩ := afterEquals?_eq_some_iff.1 he
    obtain ⟨c, hc, hcd⟩ := digits?_isSome_iff.1 (Option.isSome_iff_exists.2 ⟨r, hd⟩)
    obtain ⟨z, rfl⟩ := List.head?_eq_some_iff.1 hc
    exact ⟨g, h, c, z, hg, hh, hcd, rfl⟩

theorem numberedName?_eq_some_iff {s name : List Char} :
    numberedName? s = some name ↔
      ∃ type gap rest, IsType type ∧ gap ≠ [] ∧ Blank gap ∧ name ≠ [] ∧ (∀ c ∈ name, isWord c) ∧
        AssignsNumber rest ∧ s = type ++ (gap ++ (name ++ rest)) := by
  constructor
  · intro h
    obtain ⟨⟨n, rest⟩, hn, h⟩ := Option.bind_eq_some_iff.1 h
    obtain ⟨r, hr, rfl⟩ := Option.map_eq_some_iff.1 h
    obtain ⟨u, hu, hw⟩ := Option.bind_eq_some_iff.1 hn
    obtain ⟨t, ht, hb⟩ := Option.bind_eq_some_iff.1 hu
    obtain ⟨type, hty, rfl⟩ := exists_afterType? ht
    obtain ⟨gap, hgn, hg, -, rfl⟩ := afterBlanks?_eq_some_iff.1 hb
    obtain ⟨hnn, hnw, -, rfl⟩ := word?_eq_some_iff.1 hw
    exact ⟨type, gap, rest, hty, hgn, hg, hnn, hnw,
      assignsNumber_iff.2 (Option.isSome_iff_exists.2 ⟨r, hr⟩), rfl⟩
  · rintro ⟨type, gap, rest, hty, hgn, hg, hnn, hnw, hr, rfl⟩
    have hsolid : StartsSolid (name ++ rest) := by
      rw [startsSolid_append hnn]
      intro c hc
      exact isBlank_of_isWord (hnw c (List.mem_of_head? hc))
    obtain ⟨r, hr'⟩ := Option.isSome_iff_exists.1 (assignsNumber_iff.1 hr)
    rw [numberedName?, typedName?, afterType?_append hty (endsType_of_blank hgn hg _),
      Option.bind_some, afterBlanks?_eq_some_iff.2 ⟨gap, hgn, hg, hsolid, rfl⟩, Option.bind_some,
      word?_eq_some_iff.2 ⟨hnn, hnw, hr.head, rfl⟩, Option.bind_some]
    exact Option.map_eq_some_iff.2 ⟨r, hr', rfl⟩

def fieldLabels : List String := ["optional", "repeated", "required"]

theorem word_of_fieldLabel : ∀ label ∈ fieldLabels, ∀ c ∈ label.toList, isWord c := by
  decide

theorem afterLabel?_eq_some_iff {s rest : List Char} :
    afterLabel? s = some rest ↔
      ∃ label ∈ fieldLabels, ∃ g, g ≠ [] ∧ Blank g ∧ StartsSolid rest ∧
        s = label.toList ++ (g ++ rest) := by
  constructor
  · intro h
    obtain ⟨label, hl, h⟩ := List.exists_of_findSome?_eq_some h
    obtain ⟨t, ht, hb⟩ := Option.bind_eq_some_iff.1 h
    obtain ⟨g, hn, hg, hs, rfl⟩ := afterBlanks?_eq_some_iff.1 hb
    exact ⟨label, hl, g, hn, hg, hs, after?_eq_some_iff.1 ht⟩
  · rintro ⟨label, hl, g, hn, hg, hs, rfl⟩
    have hb : afterBlanks? (g ++ rest) = some rest :=
      afterBlanks?_eq_some_iff.2 ⟨g, hn, hg, hs, rfl⟩
    simp only [fieldLabels, List.mem_cons, List.not_mem_nil, or_false] at hl
    rcases hl with rfl | rfl | rfl <;>
      simp only [afterLabel?, afterKeyword?, List.findSome?_cons, after?_append, Option.bind_some,
        hb]
    all_goals rfl

/-- The start of a number, up to its first digit. -/
def StartsNumber (num : List Char) : Prop :=
  ∃ c, isDigit c ∧ (num = [c] ∨ num = ['-', c])

theorem StartsNumber.ne_nil {num : List Char} (h : StartsNumber num) : num ≠ [] := by
  obtain ⟨c, -, rfl | rfl⟩ := h <;> simp

theorem StartsNumber.solid {num : List Char} (h : StartsNumber num) :
    StartsSolid num ∧ EndsSolid num := by
  obtain ⟨c, hc, rfl | rfl⟩ := h
  · exact ⟨startsSolid_cons.2 (isBlank_of_isDigit hc),
      endsSolid_concat (s := []).2 (isBlank_of_isDigit hc)⟩
  · exact ⟨startsSolid_cons.2 (by decide), endsSolid_concat (s := ['-']).2 (isBlank_of_isDigit hc)⟩

theorem StartsNumber.no_semicolon {num : List Char} (h : StartsNumber num) : ';' ∉ num := by
  obtain ⟨c, hc, rfl | rfl⟩ := h
  all_goals
    have : c ≠ ';' := by
      rintro rfl
      exact absurd hc (by decide)
    simp [this.symm]

theorem assignment?_isSome_iff {s : List Char} :
    (assignment? s).isSome ↔ ∃ name g h num z, name ≠ [] ∧ (∀ c ∈ name, isWord c) ∧ Blank g ∧
      Blank h ∧ StartsNumber num ∧ s = name ++ (g ++ '=' :: (h ++ (num ++ z))) := by
  constructor
  · intro hs
    obtain ⟨a, ha⟩ := Option.isSome_iff_exists.1 hs
    obtain ⟨⟨name, rest⟩, hn, hrest⟩ := Option.bind_eq_some_iff.1 ha
    obtain ⟨r, hr, hnum⟩ := Option.bind_eq_some_iff.1 hrest
    obtain ⟨hne, hw, -, rfl⟩ := word?_eq_some_iff.1 hn
    obtain ⟨g, h, hg, hh, -, rfl⟩ := afterEquals?_eq_some_iff.1 hr
    refine ⟨name, g, h, ?_⟩
    split at hnum
    case h_1 r' =>
        obtain ⟨d, hd, -⟩ := Option.map_eq_some_iff.1 hnum
        obtain ⟨c, hc, hcd⟩ := digits?_isSome_iff.1 (Option.isSome_iff_exists.2 ⟨d, hd⟩)
        obtain ⟨z, rfl⟩ := List.head?_eq_some_iff.1 hc
        exact ⟨['-', c], z, hne, hw, hg, hh, ⟨c, hcd, .inr rfl⟩, rfl⟩
    case h_2 =>
        obtain ⟨d, hd, -⟩ := Option.map_eq_some_iff.1 hnum
        obtain ⟨c, hc, hcd⟩ := digits?_isSome_iff.1 (Option.isSome_iff_exists.2 ⟨d, hd⟩)
        obtain ⟨z, rfl⟩ := List.head?_eq_some_iff.1 hc
        exact ⟨[c], z, hne, hw, hg, hh, ⟨c, hcd, .inl rfl⟩, rfl⟩
  · rintro ⟨name, g, h, num, z, hne, hw, hg, hh, hnum, rfl⟩
    have hhead : ∀ c ∈ (g ++ '=' :: (h ++ (num ++ z))).head?, isWord c = false :=
      not_word_of_blank_cons hg (by decide) _
    have hsolid : StartsSolid (num ++ z) := (startsSolid_append hnum.ne_nil).2 hnum.solid.1
    rw [assignment?, word?_eq_some_iff.2 ⟨hne, hw, hhead, rfl⟩, Option.bind_some]
    dsimp only
    rw [afterEquals?_eq_some_iff.2 ⟨g, h, hg, hh, hsolid, rfl⟩, Option.bind_some]
    obtain ⟨c, hc, rfl | rfl⟩ := hnum
    · have hd : (digits? (c :: z)).isSome := digits?_isSome_iff.2 ⟨c, rfl, hc⟩
      have hm : c ≠ '-' := by
        rintro rfl
        exact absurd hc (by decide)
      rw [List.singleton_append]
      split
      case h_1 he => exact absurd (List.cons.inj he).1 hm
      case h_2 => rwa [Option.isSome_map]
    · have hd : (digits? (c :: z)).isSome := digits?_isSome_iff.2 ⟨c, rfl, hc⟩
      exact (Option.isSome_map ..).trans hd

theorem isType_word {w : List Char} (hn : w ≠ []) (hw : ∀ c ∈ w, isWord c) : IsType w := by
  have hd : '.' ∉ w := fun h => absurd (hw _ h) (by decide)
  refine .path (fun c hc => by rw [hw c hc, Bool.true_or]) ?_
  rw [List.splitOn_eq_singleton hd]
  simp [hn]

/-- A name and its number, with any white space around the equals sign. -/
theorem assignment?_spelled {name g k digits t : List Char} (negative : Bool) (hn : name ≠ [])
    (hw : ∀ c ∈ name, isWord c) (hg : Blank g) (hk : Blank k) (hdn : digits ≠ [])
    (hd : ∀ c ∈ digits, isDigit c) (ht : ∀ c ∈ t.head?, isDigit c = false) :
    assignment?
        (name ++ (g ++ '=' :: (k ++ ((if negative then '-' :: digits else digits) ++ t)))) =
      some (⟨name, negative, digits⟩, t) := by
  have hequals : ∀ u : List Char, ∀ c ∈ (g ++ '=' :: u).head?, isWord c = false :=
    not_word_of_blank_cons hg (by decide)
  rw [assignment?, word?_eq_some_iff.2 ⟨hn, hw, hequals _, rfl⟩, Option.bind_some]
  dsimp only
  cases negative with
  | true =>
      rw [if_pos rfl, List.cons_append]
      have hs : StartsSolid ('-' :: (digits ++ t)) := startsSolid_cons.2 (by decide)
      rw [afterEquals?_eq_some_iff.2 ⟨g, k, hg, hk, hs, rfl⟩, Option.bind_some]
      exact congrArg (Option.map _) (digits?_append hdn hd ht)
  | false =>
      rw [if_neg Bool.false_ne_true]
      obtain ⟨c, z, rfl⟩ := List.exists_cons_of_ne_nil hdn
      have hc : isDigit c := hd c List.mem_cons_self
      have hs : StartsSolid (c :: z ++ t) := startsSolid_cons.2 (isBlank_of_isDigit hc)
      rw [afterEquals?_eq_some_iff.2 ⟨g, k, hg, hk, hs, rfl⟩, Option.bind_some]
      split
      case h_1 he =>
          obtain rfl := (List.cons.inj he).1
          exact absurd hc (by decide)
      case h_2 => rw [digits?_append hdn hd ht, Option.map_some]

section
variable {name g t : List Char} (hn : name ≠ []) (hw : ∀ c ∈ name, isWord c) (hg : Blank g)
include hw hg

theorem declaredName?_of_equals {keyword : String} (hk : ∀ c ∈ keyword.toList, isWord c) :
    declaredName? keyword (name ++ (g ++ '=' :: t)) = none := by
  rw [declaredName?]
  cases ha : afterKeyword? [keyword] (name ++ (g ++ '=' :: t)) with
  | none => rfl
  | some r =>
      obtain ⟨k, hkn, hkb, hr, he⟩ := afterKeyword?_eq_some_iff.1 ha
      have hequals := not_word_of_blank_cons (m := '=') hg (by decide) t
      have hsame := (word_append_inj hw hequals hk (not_word_of_blank hkn hkb r) he).2
      rw [← blank_append_cancel hg hkb (startsSolid_cons.2 (by decide)) hr hsame]
      rfl

include hn

theorem fieldName?_of_equals : fieldName? (name ++ (g ++ '=' :: t)) = none := by
  have hsolid : StartsSolid ('=' :: t) := startsSolid_cons.2 (by decide)
  have hends := endsType_of_equals hg t
  have hnumbered : numberedName? (name ++ (g ++ '=' :: t)) = none := by
    rw [numberedName?, typedName?, afterType?_append (isType_word hn hw) hends, Option.bind_some]
    cases hb : afterBlanks? (g ++ '=' :: t) with
    | none => rfl
    | some r =>
        obtain ⟨k, -, hk, hr, he⟩ := afterBlanks?_eq_some_iff.1 hb
        rw [← blank_append_cancel hg hk hsolid hr he]
        rfl
  have hlabel : ((afterLabel? (name ++ (g ++ '=' :: t))).bind numberedName?) = none := by
    cases hl : afterLabel? (name ++ (g ++ '=' :: t)) with
    | none => rfl
    | some r =>
        obtain ⟨label, hm, k, hkn, hk, hr, he⟩ := afterLabel?_eq_some_iff.1 hl
        have hequals := not_word_of_blank_cons (m := '=') hg (by decide) t
        have hblank := not_word_of_blank hkn hk r
        have hsame := (word_append_inj hw hequals (word_of_fieldLabel label hm) hblank he).2
        rw [Option.bind_some, ← blank_append_cancel hg hk hsolid hr hsame]
        rfl
  rw [fieldName?, hlabel, hnumbered]
  rfl

end

end SchemaLint.Line
