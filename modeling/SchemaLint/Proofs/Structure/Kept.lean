import SchemaLint.Proofs.Layout.Braces
import SchemaLint.Proofs.Structure.Joints

/-! Lines that formatting keeps: each line that they become is read as they are. Most are kept
because their normal spacing puts no space after a word that decides how a line is checked. -/

namespace SchemaLint.Structure
open SchemaLint.Text SchemaLint.Line SchemaLint.Layout

/-- The line becomes lines that are read as it is. -/
def Kept (context : Option BlockKind) (t : List Char) : Prop :=
  ∀ u ∈ outputs t, ReadAlike context (code t) (code u)

/-- From a state on, each line of code is kept in the block where it stands. -/
def KeptFrom (s : State) (n : Nat) : List (List Char) → Prop
  | [] => True
  | l :: ls =>
    (s.inComment = false → isComment (trim l) = false → Kept s.context (trim l)) ∧
      KeptFrom (step s (l, n)).1 (n + 1) ls

/-- The words that decide how a line is checked when a space follows them. -/
def leadingWords : List String :=
  ["message", "enum", "service", "oneof", "syntax", "package", "import", "option", "rpc"]

/-- Normal spacing puts a space after such a word: an equals sign follows it, or other white space
follows `rpc`. -/
def GainsSpace (t : List Char) : Prop :=
  ∃ k ∈ leadingWords, ∃ a u, t = k.toList ++ a :: u ∧ (a = '=' ∨ k = "rpc" ∧ isBlank a ∧ a ≠ ' ')

instance (t : List Char) : Decidable (GainsSpace t) :=
  decidable_of_iff (∃ k ∈ leadingWords, ((after? k.toList t).bind List.head?).any fun a =>
      a = '=' ∨ k = "rpc" ∧ isBlank a ∧ a ≠ ' ') <| by
    refine exists_congr fun k => and_congr_right fun _ => ?_
    rw [Option.any_eq_true]
    refine exists_congr fun a => ?_
    simp only [Option.bind_eq_some_iff, after?_eq_some_iff, List.head?_eq_some_iff,
      decide_eq_true_eq]
    constructor
    · rintro ⟨⟨_, rfl, u, rfl⟩, ha⟩
      exact ⟨u, rfl, ha⟩
    · rintro ⟨u, rfl, ha⟩
      exact ⟨⟨_, rfl, u, rfl⟩, ha⟩

theorem kept_nil (context : Option BlockKind) : Kept context [] := nofun

theorem kept_close (context : Option BlockKind) {t : List Char} (h : isClosingLine t) :
    Kept context t := by
  rw [Kept, outputs_close h, List.forall_mem_singleton]
  exact .refl _ _

theorem readAlike_closer (context : Option BlockKind) (c : List Char) {closer : List Char}
    (h : isCloser closer) : ReadAlike context c closer := by
  rcases closer_cases h with rfl | rfl <;>
    exact ⟨fun h => absurd h (by decide), fun h => absurd h (by decide),
      fun _ h => absurd h (by decide)⟩

theorem kept_brace (context : Option BlockKind) : Kept context ['{'] := by
  rw [Kept, show outputs ['{'] = [['{']] by decide, List.forall_mem_singleton]
  exact .refl _ _

theorem kept_isCode {context : Option BlockKind} {l : List Char} (h : IsCode l) :
    Kept context (trim l) ↔ ReadAlike context (code (trim l)) (code (spaced (trim l))) := by
  rw [Kept, outputs_isCode h, List.forall_mem_singleton]

/-- An opener is read as one, and as no statement that needs a semicolon and no method. -/
theorem readAlike_of_block {context : Option BlockKind} {keyword : String} {u d : List Char}
    (hk : keyword ∈ blockKeywords) (hu : ∀ a ∈ u.head?, isBlank a)
    (hd : firstWord d = keyword.toList) : ReadAlike context (keyword.toList ++ u) d := by
  have hother : ∀ k ∈ blockKeywords, "rpc".toList ≠ k.toList ∧
      ∀ l ∈ ["syntax", "package", "import", "option"], l.toList ≠ k.toList := by
    decide
  obtain ⟨hrpc, hstatement⟩ := hother keyword hk
  refine ⟨fun ho => ?_, fun hl => ?_, fun _ hs => ?_⟩
  · obtain ⟨o, ho⟩ := Option.isSome_iff_exists.1 ho
    obtain ⟨kind, hkind, hword, -⟩ := opener?_eq_some_iff.1 ho
    rw [← hd, ← hword]
    exact opener?_keyword hkind fun a ha => .inl (hu a ha)
  · rw [← hd] at hstatement
    rw [Line.lacksSemicolon, afterKeyword?_eq_none (by decide) hstatement] at hl
    cases hl
  · rw [← hd] at hrpc
    have : startsWith "rpc ".toList d = false :=
      startsWith_spaced_eq_false "rpc".toList (by decide) hrpc
    rw [this] at hs
    cases hs

theorem keptFrom_alike {s t : State} (h : Alike s t) {n m : Nat} {ls : List (List Char)} :
    KeptFrom s n ls ↔ KeptFrom t m ls := by
  induction ls generalizing s t n m with
  | nil => rfl
  | cons l ls ih =>
      rw [KeptFrom, KeptFrom, h.inComment, h.context, ih (step_alike h rfl n m).2]

theorem keptFrom_blank {s : State} {n m : Nat} {l : List Char} (hl : trim l = [])
    {ls : List (List Char)} : KeptFrom s n (l :: ls) ↔ KeptFrom s m ls := by
  rw [KeptFrom, step_blank hl, hl]
  exact (and_iff_right fun _ _ => kept_nil _).trans (keptFrom_alike (.refl s))

theorem keptFrom_blanks {s : State} {n m : Nat} {gap : List (List Char)}
    (h : ∀ k ∈ gap, trim k = []) {ls : List (List Char)} :
    KeptFrom s n (gap ++ ls) ↔ KeptFrom s m ls := by
  induction gap generalizing n with
  | nil => exact keptFrom_alike (.refl s)
  | cons l gap ih =>
      obtain ⟨hl, h⟩ := List.forall_mem_cons.1 h
      rw [List.cons_append, keptFrom_blank (m := n) hl, ih h]

section
variable {t : List Char} (ht : trim t = t) (hnl : '\n' ∉ t) (h : ¬ GainsSpace t)
include ht hnl h

theorem blank_of_not_gainsSpace {k : String} (hk : k ∈ leadingWords) {b : Char} {v : List Char}
    (hb : isBlank b) (hd : code (spaced t) = k.toList ++ b :: v) :
    ∃ a u, isBlank a ∧ (k = "rpc" → a = ' ') ∧ code t = k.toList ++ a :: u := by
  have hword : ∀ k ∈ leadingWords, k.toList ≠ [] ∧ ∀ c ∈ k.toList, isWord c := by decide
  obtain ⟨a, u, ha, hcode⟩ := blank_of_code_spaced ht hnl (hword k hk).1 (hword k hk).2 hb hd
  obtain ⟨z, hz⟩ := code_isPrefix (trim_eq_self_iff.1 ht).1
  rw [hcode, List.append_assoc, List.cons_append] at hz
  have hgains : ¬ (a = '=' ∨ k = "rpc" ∧ isBlank a ∧ a ≠ ' ') := fun hg =>
    h ⟨k, hk, a, u ++ z, hz.symm, hg⟩
  rw [not_or, not_and, not_and, not_not] at hgains
  have hblank := ha.resolve_right hgains.1
  exact ⟨a, u, hblank, fun he => hgains.2 he hblank, hcode⟩

theorem opener_of_not_gainsSpace (ho : (opener? (code (spaced t))).isSome) :
    (opener? (code t)).isSome := by
  have hcompact := compact_code_spaced hnl
  have hfirm : ∀ kind ∈ BlockKind.declared, kind.word ∈ leadingWords ∧
      ∀ c ∈ kind.word.toList, isFirm c := by
    decide
  obtain ⟨o, ho⟩ := Option.isSome_iff_exists.1 ho
  obtain ⟨kind, hkind, hword, hafter⟩ := opener?_eq_some_iff.1 ho
  have hd : code (spaced t) = kind.word.toList ++ (code (spaced t)).dropWhile isWord := by
    rw [hword]
    exact List.takeWhile_append_dropWhile.symm
  generalize (code (spaced t)).dropWhile isWord = v at hd hafter
  obtain ⟨u, hu, huv⟩ := exists_of_compact_append (hfirm kind hkind).2 (hd ▸ hcompact.symm)
  cases v with
  | nil =>
      rw [hu, compact_eq_nil_iff.1 huv]
      exact opener?_keyword hkind (by simp)
  | cons b v =>
      by_cases hb : isBlank b
      · obtain ⟨a, u, ha, -, hcode⟩ := blank_of_not_gainsSpace ht hnl h (hfirm kind hkind).1 hb hd
        rw [hcode]
        exact opener?_keyword hkind fun c hc => by
          cases hc
          exact .inl ha
      · have hbrace : b = '{' := by
          unfold openerAfter at hafter
          split at hafter
          case h_1 he => cases he
          case h_2 he => exact (List.cons.inj he).1
          case h_3 =>
              rw [afterBlanks?, if_neg hb] at hafter
              cases hafter
        rw [hu]
        refine opener?_keyword hkind fun a ha => ?_
        obtain ⟨w, rfl⟩ := List.head?_eq_some_iff.1 ha
        rw [or_iff_not_imp_left, Bool.not_eq_true]
        intro hab
        have hhead := head?_compact hab w
        rw [huv, head?_compact (eq_false_of_ne_true hb), hbrace] at hhead
        exact (Option.some.inj hhead).symm

theorem readAlike_of_not_gainsSpace (context : Option BlockKind) :
    ReadAlike context (code t) (code (spaced t)) := by
  refine ⟨opener_of_not_gainsSpace ht hnl h, fun hl => ?_, fun _ hs => ?_⟩
  · have hcompact := compact_code_spaced hnl
    have hleading : ∀ k ∈ ["syntax", "package", "import", "option"], k ∈ leadingWords := by decide
    have hmem : ∀ {c : Char}, isBlank c = false →
        (code t).contains c = (code (spaced t)).contains c := by
      intro c hc
      rw [Bool.eq_iff_iff, List.contains_iff_mem, List.contains_iff_mem, ← mem_compact hc,
        ← hcompact, mem_compact hc]
    simp only [Line.lacksSemicolon, Bool.and_eq_true] at hl ⊢
    obtain ⟨⟨hl, hs⟩, ho⟩ := hl
    obtain ⟨k, hk, b, v, hb, hd⟩ := exists_keyword_iff.1 hl
    obtain ⟨a, u, ha, -, hcode⟩ := blank_of_not_gainsSpace ht hnl h (hleading k hk) hb hd
    rw [hmem (by decide), hmem (by decide)]
    exact ⟨⟨exists_keyword_iff.2 ⟨k, hk, a, u, ha, hcode⟩, hs⟩, ho⟩
  · left
    obtain ⟨v, hv⟩ := startsWith_iff.1 hs
    have hd : code (spaced t) = "rpc".toList ++ ' ' :: v := by
      rw [← hv]
      rfl
    obtain ⟨a, u, -, ha, hcode⟩ :=
      blank_of_not_gainsSpace ht hnl h (by decide) (by decide) hd
    rw [hcode, ha rfl]
    exact startsWith_iff.2 ⟨u, rfl⟩

end

theorem not_gainsSpace_of_isPrefix {s t : List Char} (h : ¬ GainsSpace t) (hp : s <+: t) :
    ¬ GainsSpace s := by
  obtain ⟨z, rfl⟩ := hp
  rintro ⟨k, hk, a, u, rfl, ha⟩
  exact h ⟨k, hk, a, u ++ z, by simp, ha⟩

/-- A line is kept if it gains no space and is not split inside its comment. -/
theorem kept_of_not_gainsSpace {context : Option BlockKind} {t : List Char} (ht : trim t = t)
    (hnl : '\n' ∉ t) (hc : isComment t = false) (hs : ¬ SplitsRemark t) (h : ¬ GainsSpace t) :
    Kept context t := by
  unfold Kept outputs
  split
  case isTrue => exact nofun
  case isFalse =>
      split
      case isTrue => exact List.forall_mem_singleton.2 (.refl _ _)
      case isFalse =>
          rw [hc, if_neg Bool.false_ne_true]
          split
          case h_1 statement closer hsplit =>
              have hr : remark t = [] := by
                by_contra hr
                exact hs ⟨hc, hr, by rw [hsplit]; rfl⟩
              obtain ⟨hcode, hstatement⟩ := code_of_split ht hc hsplit hr
              obtain ⟨hts, -, -, hcloser⟩ := trim_of_split ht hc hsplit
              obtain ⟨-, -, -, -, -, -, hclose⟩ := statementAndCloser?_eq_some_iff.1 hsplit
              have hp := (cut_of_split hsplit).isPrefix
              have hread := readAlike_of_not_gainsSpace hts (fun hm => hnl (hp.subset hm))
                (not_gainsSpace_of_isPrefix h hp) context
              rw [hstatement] at hread
              refine List.forall_mem_cons.2 ⟨?_, List.forall_mem_singleton.2 ?_⟩
              · rwa [hcode, readAlike_of_split hsplit]
              · rw [hcloser]
                exact readAlike_closer context _ hclose
          case h_2 =>
              exact List.forall_mem_singleton.2 (readAlike_of_not_gainsSpace ht hnl h context)

theorem keptFrom_of_lines {s : State} {n : Nat} {b : Bool} {ls : List (List Char)}
    (hs : s.inComment = b) (hnl : ∀ l ∈ ls, '\n' ∉ l)
    (h : ∀ t ∈ collect (fun _ => []) (fun t => [t]) b ls, ¬ SplitsRemark t ∧ ¬ GainsSpace t) :
    KeptFrom s n ls := by
  induction ls generalizing s n b with
  | nil => trivial
  | cons l ls ih =>
      obtain ⟨hl, hls⟩ := forall_collect_cons.1 h
      obtain ⟨hlnl, hnl⟩ := List.forall_mem_cons.1 hnl
      refine ⟨fun hs' hc => ?_, ih (by rw [inComment_step, hs]) hnl hls⟩
      have hb : b = false := hs.symm.trans hs'
      obtain ⟨hsplits, hgains⟩ := hl (by rw [hb, opensBlock_of_not_isComment hc]; rfl)
      exact kept_of_not_gainsSpace (trim_trim l) (fun hm => hlnl (mem_of_mem_trim hm)) hc hsplits
        hgains

end SchemaLint.Structure
