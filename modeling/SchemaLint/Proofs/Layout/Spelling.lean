import SchemaLint.Layout.Spacing
import SchemaLint.Proofs.Line.Reader
import SchemaLint.Proofs.Line.Respacing

/-! The reading of one line by cases, and the spacing it gets. Whatever a line holds, its normal
spacing is a respacing. -/

namespace SchemaLint.Layout
open SchemaLint.Text SchemaLint.Line

/-- What a line holds and its text in normal spacing, by cases. -/
inductive Spelled (s : List Char) : Category → List Char → Prop
  | comment : startsWith "//".toList s → Spelled s .comment s
  | block {keyword : String} {g rest : List Char} : keyword ∈ blockKeywords → g ≠ [] → Blank g →
      StartsSolid rest → s = keyword.toList ++ (g ++ rest) →
      Spelled s .block (spaceOpener keyword rest)
  | syntaxDecl {g h rest : List Char} : Blank g → Blank h → StartsSolid rest →
      s = "syntax".toList ++ (g ++ '=' :: (h ++ rest)) →
      Spelled s .syntaxDecl ("syntax = ".toList ++ rest)
  | statement {keyword : String} {category : Category} {g rest : List Char} :
      (keyword, category) ∈ statementKeywords → g ≠ [] → Blank g → StartsSolid rest →
      s = keyword.toList ++ (g ++ rest) → Spelled s category (spaceKeyword keyword rest)
  | rpc {g rest : List Char} : g ≠ [] → Blank g → StartsSolid rest →
      s = "rpc".toList ++ (g ++ rest) → Spelled s .rpc (spaceRpc rest)
  | field {name : List Char} : asBlock? s = none → asStatement? s = none → asRpc? s = none →
      fieldName? s = some name → Spelled s .field (spaceAssignment s)
  | enumValue {a : Assignment × List Char} : asSyntax? s = none → fieldName? s = none →
      assignment? s = some a → Spelled s .enumValue (spaceAssignment s)
  | other : Spelled s .other s

theorem spelled_asBlock {s : List Char} {r : Category × List Char} (h : asBlock? s = some r) :
    Spelled s r.1 r.2 := by
  obtain ⟨keyword, hk, h⟩ := List.exists_of_findSome?_eq_some h
  obtain ⟨rest, hr, rfl⟩ := Option.map_eq_some_iff.1 h
  obtain ⟨g, hn, hg, hs, he⟩ := afterKeyword?_eq_some_iff.1 hr
  exact .block hk hn hg hs he

theorem spelled_asSyntax {s : List Char} {r : Category × List Char} (h : asSyntax? s = some r) :
    Spelled s r.1 r.2 := by
  obtain ⟨rest, hr, rfl⟩ := Option.map_eq_some_iff.1 h
  obtain ⟨t, ht, hr⟩ := Option.bind_eq_some_iff.1 hr
  obtain ⟨g, k, hg, hk, hs, rfl⟩ := afterEquals?_eq_some_iff.1 hr
  exact .syntaxDecl hg hk hs (after?_eq_some_iff.1 ht)

theorem spelled_asStatement {s : List Char} {r : Category × List Char}
    (h : asStatement? s = some r) : Spelled s r.1 r.2 := by
  obtain ⟨⟨keyword, category⟩, hk, h⟩ := List.exists_of_findSome?_eq_some h
  obtain ⟨rest, hr, rfl⟩ := Option.map_eq_some_iff.1 h
  obtain ⟨g, hn, hg, hs, he⟩ := afterKeyword?_eq_some_iff.1 hr
  exact .statement hk hn hg hs he

theorem spelled_asRpc {s : List Char} {r : Category × List Char} (h : asRpc? s = some r) :
    Spelled s r.1 r.2 := by
  obtain ⟨rest, hr, rfl⟩ := Option.map_eq_some_iff.1 h
  obtain ⟨g, hn, hg, hs, he⟩ := afterKeyword?_eq_some_iff.1 hr
  exact .rpc hn hg hs he

theorem spelled_readLine (s : List Char) : Spelled s (readLine s).1 (readLine s).2 := by
  unfold readLine
  cases hr : asComment? s <|> asBlock? s <|> asSyntax? s <|> asStatement? s <|> asRpc? s <|>
      asField? s <|> asEnumValue? s with
  | none => exact .other
  | some r =>
      simp only [Option.orElse_eq_orElse, Option.orElse_eq_or, Option.or_eq_some_iff] at hr
      change Spelled s r.1 r.2
      rcases hr with h | ⟨-, h | ⟨hblock, h | ⟨hdecl, h | ⟨hstatement, h | ⟨hrpc, h |
        ⟨hfield, h⟩⟩⟩⟩⟩⟩
      · unfold asComment? at h
        split at h
        case isTrue hs => cases h; exact .comment hs
        case isFalse => cases h
      · exact spelled_asBlock h
      · exact spelled_asSyntax h
      · exact spelled_asStatement h
      · exact spelled_asRpc h
      · obtain ⟨name, hn, rfl⟩ := Option.map_eq_some_iff.1 h
        exact .field hblock hstatement hrpc hn
      · obtain ⟨a, ha, rfl⟩ := Option.map_eq_some_iff.1 h
        exact .enumValue hdecl (Option.map_eq_none_iff.1 hfield) ha

variable {wide : Bool}

theorem tightenBefore_cons (p : Char → Bool) (c : Char) (s : List Char) :
    tightenBefore p (c :: s) =
      if isBlank c && (tightenBefore p s).head?.any p then tightenBefore p s
      else c :: tightenBefore p s := by
  rw [tightenBefore, List.foldr_cons, ← tightenBefore]

theorem respaced_tightenBefore {p : Char → Bool} (hp : ∀ c, p c → isMark c) (s : List Char) :
    Respaced wide s (tightenBefore p s) := by
  induction s with
  | nil => exact .refl _
  | cons c s ih =>
      rw [tightenBefore_cons]
      split
      case isTrue h =>
          rw [Bool.and_eq_true] at h
          cases ht : tightenBefore p s with
          | nil => simp [ht] at h
          | cons m t =>
              rw [ht] at h ih
              have hc : Blank [c] := by simpa using h.1
              exact (ih.cons c).trans (.before (hp m (by simpa using h.2)) hc .nil t)
      case isFalse => exact ih.cons c

theorem respaced_tightenAfter {p : Char → Bool} (hp : ∀ c, p c → isMark c) (s : List Char) :
    Respaced wide s (tightenAfter p s) := by
  have : Respaced wide _ _ := (respaced_tightenBefore hp s.reverse).reverse
  rwa [List.reverse_reverse] at this

theorem respaced_tightenFirstSemicolon (s : List Char) :
    Respaced wide s (tightenFirstSemicolon s) := by
  induction s with
  | nil => exact .refl _
  | cons c s ih =>
      rw [tightenFirstSemicolon]
      split
      case isTrue h =>
          rw [Bool.and_eq_true, decide_eq_true_eq] at h
          obtain ⟨g, hg, he⟩ := exists_trimStart s
          obtain ⟨t, ht⟩ := List.head?_eq_some_iff.1 h.2
          rw [ht] at he ⊢
          rw [he]
          exact .before (g := c :: g) (by decide) (blank_cons.2 ⟨h.1, hg⟩) .nil t
      case isFalse => exact ih.cons c

theorem respaced_spaceFinalBrace (s : List Char) : Respaced wide s (spaceFinalBrace s) := by
  have key : ∀ front rest : List Char,
      Respaced wide (front ++ '{' :: rest) (trimEnd front ++ ' ' :: '{' :: rest) := by
    intro front rest
    obtain ⟨g, hg, he⟩ := exists_trimEnd front
    have : Respaced wide _ _ :=
      (Respaced.before (m := '{') (by decide) hg .space rest).append_left (trimEnd front)
    rwa [← List.append_assoc, ← he] at this
  unfold spaceFinalBrace
  split
  case h_1 front h =>
      have := key front.reverse []
      rwa [← List.reverse_cons, ← h, List.reverse_reverse] at this
  case h_2 front h =>
      have := key front.reverse ['\n']
      have he : s = front.reverse ++ ['{', '\n'] := by
        rw [← List.reverse_reverse s, h]
        simp
      rwa [← he] at this
  case h_3 => exact .refl _

theorem respaced_spaceEquals (s : List Char) : Respaced wide s (spaceEquals s) := by
  rw [spaceEquals]
  cases h : until? '=' s with
  | none => exact .refl _
  | some r =>
      obtain ⟨front, rest⟩ := r
      obtain ⟨-, rfl⟩ := until?_eq_some_iff.1 h
      obtain ⟨g, hg, hf⟩ := exists_trimEnd front
      obtain ⟨k, hk, hr⟩ := exists_trimStart rest
      have before : Respaced wide (front ++ '=' :: rest)
          (trimEnd front ++ (' ' :: '=' :: rest)) := by
        have : Respaced wide _ _ :=
          (Respaced.before (m := '=') (by decide) hg .space rest).append_left (trimEnd front)
        rwa [← List.append_assoc, ← hf] at this
      have after : Respaced wide ('=' :: rest) ('=' :: ' ' :: trimStart rest) := by
        have : Respaced wide _ _ :=
          .after (m := '=') (by decide) hk .space (trimStart rest)
        rwa [List.cons_append, ← hr] at this
      change Respaced wide _ (trimEnd front ++ " = ".toList ++ trimStart rest)
      rw [List.append_assoc]
      exact before.trans ((after.cons ' ').append_left (trimEnd front))

theorem afterReturns?_eq_some_iff {s inner : List Char} :
    afterReturns? s = some inner ↔
      ∃ g h, Blank g ∧ Blank h ∧ s = g ++ ("returns".toList ++ (h ++ '(' :: inner)) := by
  obtain ⟨g, hg, hs⟩ := exists_trimStart s
  rw [afterReturns?]
  constructor
  · intro h
    obtain ⟨t, ht, h⟩ := Option.bind_eq_some_iff.1 h
    obtain ⟨k, hk, hr⟩ := exists_trimStart t
    rw [after?_eq_some_iff.1 ht, hr, after?_eq_some_iff.1 h] at hs
    exact ⟨g, k, hg, hk, hs⟩
  · rintro ⟨g, h, hg, hh, rfl⟩
    have hsolid : StartsSolid ("returns".toList ++ (h ++ '(' :: inner)) :=
      (startsSolid_append (by decide)).2 (by decide)
    rw [trimStart_append hg, hsolid.trimStart, after?_append, Option.bind_some,
      trimStart_append hh, trimStart_eq_self_iff.2 (startsSolid_cons.2 (by decide))]
    exact after?_append ['('] inner

theorem spaceReturns_cons (c : Char) (s : List Char) :
    spaceReturns (c :: s) =
      if c = ')' then
        match afterReturns? (spaceReturns s) with
        | some inner => ") returns (".toList ++ inner
        | none => c :: spaceReturns s
      else c :: spaceReturns s := rfl

theorem respaced_spaceReturns (s : List Char) : Respaced wide s (spaceReturns s) := by
  induction s with
  | nil => exact .refl _
  | cons c s ih =>
      rw [spaceReturns_cons]
      split
      case isTrue hc =>
          cases h : afterReturns? (spaceReturns s) with
          | none => exact ih.cons c
          | some inner =>
              obtain ⟨g, k, hg, hk, he⟩ := afterReturns?_eq_some_iff.1 h
              rw [he] at ih
              have first : Respaced wide _ _ := .after (m := ')') (by decide) hg .space
                ("returns".toList ++ (k ++ '(' :: inner))
              have second : Respaced wide _ _ :=
                (Respaced.before (m := '(') (by decide) hk .space inner).append_left
                  ") returns".toList
              subst hc
              exact (ih.cons _).trans (first.trans second)
      case isFalse => exact ih.cons c

theorem respaced_spaceKeyword {g : List Char} (hn : g ≠ []) (hg : Blank g) (keyword : String)
    (rest : List Char) :
    Respaced true (keyword.toList ++ (g ++ rest)) (spaceKeyword keyword rest) := by
  have := Respaced.swap keyword.toList rest (.within rfl hg .space hn (List.cons_ne_nil ' ' []))
  rw [List.append_assoc, List.append_assoc] at this
  exact this

/-- The spacing of a method but for a brace at its end. -/
def spaceParens (s : List Char) : List Char :=
  tightenBefore (· == ';')
    (spaceReturns (tightenBefore (· == ')') (tightenBefore (· == '(') (tightenAfter (· == '(') s))))

def spaceMethod (s : List Char) : List Char :=
  spaceFinalBrace (spaceParens s)

theorem spaceRpc_eq (rest : List Char) :
    spaceRpc rest = spaceMethod (spaceKeyword "rpc" rest) := rfl

theorem respaced_spaceParens (s : List Char) : Respaced wide s (spaceParens s) := by
  have mark : ∀ m : Char, isMark m → ∀ c : Char, (c == m) = true → isMark c := by
    rintro m hm c hc
    rwa [beq_iff_eq.1 hc]
  exact (respaced_tightenAfter (mark '(' (by decide)) _).trans <|
    (respaced_tightenBefore (mark '(' (by decide)) _).trans <|
    (respaced_tightenBefore (mark ')' (by decide)) _).trans <|
    (respaced_spaceReturns _).trans (respaced_tightenBefore (mark ';' (by decide)) _)

theorem respaced_spaceRpc (rest : List Char) :
    Respaced wide (spaceKeyword "rpc" rest) (spaceRpc rest) :=
  (respaced_spaceParens _).trans (respaced_spaceFinalBrace _)

theorem respaced_syntaxDecl {g h : List Char} (hg : Blank g) (hh : Blank h) (rest : List Char) :
    Respaced wide ("syntax".toList ++ (g ++ '=' :: (h ++ rest))) ("syntax = ".toList ++ rest) := by
  have before : Respaced wide _ _ := .before (m := '=') (by decide) hg .space (h ++ rest)
  have after : Respaced wide _ _ := .after (m := '=') (by decide) hh .space rest
  exact (before.trans (after.cons ' ')).append_left "syntax".toList

theorem respaced_spaceAssignment (s : List Char) : Respaced wide s (spaceAssignment s) :=
  (respaced_spaceEquals s).trans (respaced_tightenFirstSemicolon _)

theorem Spelled.respaced {s t : List Char} {c : Category} (h : Spelled s c t) :
    Respaced true s t := by
  cases h with
  | comment => exact .refl _
  | block hk hn hg hs he =>
      rw [he]
      exact (respaced_spaceKeyword hn hg _ _).trans (respaced_spaceFinalBrace _)
  | syntaxDecl hg hh hs he =>
      rw [he]
      exact respaced_syntaxDecl hg hh _
  | statement hk hn hg hs he =>
      rw [he]
      exact respaced_spaceKeyword hn hg _ _
  | rpc hn hg hs he =>
      rw [he]
      exact (respaced_spaceKeyword hn hg "rpc" _).trans (respaced_spaceRpc _)
  | field => exact respaced_spaceAssignment s
  | enumValue => exact respaced_spaceAssignment s
  | other => exact .refl _

theorem respaced_readLine (s : List Char) : Respaced true s (readLine s).2 :=
  (spelled_readLine s).respaced

end SchemaLint.Layout
