import SchemaLint.Layout.Render
import SchemaLint.Proofs.Text.Lexeme
import SchemaLint.Source

/-! Tokens as lines of output, and the output read back as lines. -/

namespace SchemaLint.Layout
open SchemaLint.Text

/-- The lines of some tokens, after a token that may stand before them. -/
def linesAfter (prev : Option Token) (ts : List Token) : List (List Char) :=
  (Pass.run lineStep prev ts).2

@[simp] theorem linesAfter_nil (prev : Option Token) : linesAfter prev [] = [] := rfl

theorem linesAfter_cons (prev : Option Token) (t : Token) (ts : List Token) :
    linesAfter prev (t :: ts) =
      (if prev.any (needsBlank · t) then [[]] else []) ++ t.line :: linesAfter (some t) ts := by
  rw [linesAfter, Pass.run_cons, linesAfter, lineStep, List.append_assoc, List.singleton_append]

theorem linesAfter_append (prev : Option Token) (ts us : List Token) :
    linesAfter prev (ts ++ us) =
      linesAfter prev ts ++ linesAfter (ts.getLast?.or prev) us := by
  induction ts generalizing prev with
  | nil => rfl
  | cons t ts ih =>
      rw [List.cons_append, linesAfter_cons, linesAfter_cons, ih, List.getLast?_cons]
      cases ts.getLast? <;> simp

/-- Tokens that no blank lines go between. -/
def Quiet (ts : List Token) : Prop :=
  ts.IsChain fun p t => needsBlank p t = false

theorem linesAfter_quiet {t : Token} {ts : List Token} (h : Quiet (t :: ts))
    (prev : Option Token) :
    linesAfter prev (t :: ts) =
      (if prev.any (needsBlank · t) then [[]] else []) ++ (t :: ts).map Token.line := by
  induction ts generalizing prev t with
  | nil => exact linesAfter_cons prev t []
  | cons u ts ih =>
      obtain ⟨htu, h⟩ := List.isChain_cons_cons.1 h
      rw [linesAfter_cons, ih h, Option.any_some, htu]
      rfl

/-- Blank lines go between groups of tokens, if they do by the last token of one and the first of
the next. -/
theorem linesAfter_flatten {groups : List (List Token)}
    (hquiet : ∀ ts ∈ groups, ts ≠ [] ∧ Quiet ts)
    (hapart : groups.IsChain fun ts us => ∀ p ∈ ts.getLast?, ∀ t ∈ us.head?, needsBlank p t)
    {prev : Option Token}
    (hprev : ∀ p ∈ prev, ∀ ts ∈ groups.head?, ∀ t ∈ ts.head?, needsBlank p t) :
    linesAfter prev groups.flatten =
      (if prev.isSome && !groups.isEmpty then [[]] else []) ++
        [[]].intercalate (groups.map (·.map Token.line)) := by
  induction groups generalizing prev with
  | nil => cases prev <;> rfl
  | cons ts groups ih =>
      obtain ⟨⟨hn, hts⟩, hgroups⟩ := List.forall_mem_cons.1 hquiet
      obtain ⟨hnext, hchain⟩ := List.isChain_cons.1 hapart
      obtain ⟨t, ts, rfl⟩ := List.exists_cons_of_ne_nil hn
      have hfirst : prev.any (needsBlank · t) = prev.isSome := by
        cases prev with
        | none => rfl
        | some p => exact hprev p rfl _ rfl t rfl
      have hlast := List.getLast?_eq_some_getLast hn
      have hbetween : ∀ p ∈ some ((t :: ts).getLast hn), ∀ us ∈ groups.head?, ∀ u ∈ us.head?,
          needsBlank p u := by
        intro p hp us hus u hu
        cases hp
        exact hnext us hus _ hlast u hu
      have hrest := ih hgroups hchain hbetween
      rw [List.flatten_cons, linesAfter_append, linesAfter_quiet hts, hfirst, hlast, Option.some_or,
        hrest]
      cases groups with
      | nil => simp
      | cons us groups => simp [List.intercalate_cons_cons]

theorem render_eq (ts : List Token) :
    render ts = (dropFinalBlanks (linesAfter none ts)).flatMap (· ++ ['\n']) := rfl

theorem Token.line_eq (t : Token) : ∃ g, Blank g ∧ t.line = g ++ t.text := by
  rw [line]
  split
  case isTrue h => exact ⟨[], .nil, by rw [h]; rfl⟩
  case isFalse => exact ⟨_, blank_replicate _, rfl⟩

theorem Token.trim_line (t : Token) : trim t.line = trim t.text := by
  obtain ⟨g, hg, he⟩ := t.line_eq
  rw [he, trim_append_left hg]

theorem Token.trim_line_trim (l : List Char) (d : Nat) (c : Category) :
    trim (Token.line ⟨trim l, d, c⟩) = trim l := by
  rw [trim_line, trim_trim]

theorem Token.line_eq_nil_iff {t : Token} : t.line = [] ↔ t.text = [] := by
  rw [line]
  split <;> simp_all

theorem mem_linesAfter {prev : Option Token} {ts : List Token} {l : List Char}
    (h : l ∈ linesAfter prev ts) : l = [] ∨ ∃ t ∈ ts, l = t.line := by
  induction ts generalizing prev with
  | nil => cases h
  | cons t ts ih =>
      rw [linesAfter_cons, List.mem_append, List.mem_cons] at h
      rcases h with h | rfl | h
      · split at h
        · exact .inl (List.mem_singleton.1 h)
        · cases h
      · exact .inr ⟨t, List.mem_cons_self .., rfl⟩
      · rcases ih h with h | ⟨u, hu, he⟩
        · exact .inl h
        · exact .inr ⟨u, List.mem_cons_of_mem _ hu, he⟩

theorem dropFinalBlanks_eq (ls : List (List Char)) :
    dropFinalBlanks ls = ls.rdropWhile (·.isEmpty) := rfl

theorem exists_dropFinalBlanks (ls : List (List Char)) :
    ∃ n, ls = dropFinalBlanks ls ++ List.replicate n [] := by
  refine ⟨(ls.rtakeWhile (·.isEmpty)).length, ?_⟩
  have h : ls.rtakeWhile (·.isEmpty) = List.replicate (ls.rtakeWhile (·.isEmpty)).length [] :=
    List.eq_replicate_iff.2 ⟨rfl, fun l hl => List.isEmpty_iff.1 (List.mem_rtakeWhile_imp hl)⟩
  rw [← h, dropFinalBlanks_eq, List.rdropWhile_append_rtakeWhile]

theorem dropFinalBlanks_append_blanks (ls : List (List Char)) (n : Nat) :
    dropFinalBlanks (ls ++ List.replicate n []) = dropFinalBlanks ls := by
  induction n with
  | zero => rw [List.replicate_zero, List.append_nil]
  | succ n ih =>
      rw [List.replicate_succ', ← List.append_assoc, dropFinalBlanks_eq,
        List.rdropWhile_concat_pos _ _ _ (by rfl), ← dropFinalBlanks_eq, ih]

theorem dropFinalBlanks_inj {ls ks : List (List Char)} (hlen : ls.length = ks.length)
    (h : dropFinalBlanks ls = dropFinalBlanks ks) : ls = ks := by
  obtain ⟨n, hn⟩ := exists_dropFinalBlanks ls
  obtain ⟨m, hm⟩ := exists_dropFinalBlanks ks
  have he : n = m := by
    have := hlen
    rw [hn, hm, h, List.length_append, List.length_append, List.length_replicate,
      List.length_replicate] at this
    omega
  rw [hn, hm, h, he]

theorem mem_of_mem_dropFinalBlanks {l : List Char} {ls : List (List Char)}
    (h : l ∈ dropFinalBlanks ls) : l ∈ ls :=
  (List.rdropWhile_prefix List.isEmpty ls).subset h

theorem dropFinalBlanks_linesAfter {ts : List Token} (h : ∀ t ∈ ts, t.text ≠ [])
    (prev : Option Token) : dropFinalBlanks (linesAfter prev ts) = linesAfter prev ts := by
  rcases List.eq_nil_or_concat ts with rfl | ⟨init, t, rfl⟩
  · rfl
  · have ht : t.line ≠ [] := fun hl => h t (by simp) (Token.line_eq_nil_iff.1 hl)
    rw [List.concat_eq_append, linesAfter_append, linesAfter_cons, linesAfter_nil,
      ← List.append_assoc, dropFinalBlanks_eq,
      List.rdropWhile_concat_neg _ _ _ (by simpa using ht)]

theorem dropFinalBlanks_cons (l : List Char) (ls : List (List Char)) :
    dropFinalBlanks (l :: ls) =
      if l = [] ∧ dropFinalBlanks ls = [] then [] else l :: dropFinalBlanks ls := by
  rw [dropFinalBlanks_eq, dropFinalBlanks_eq]
  induction ls using List.reverseRecOn with
  | nil =>
      rw [List.rdropWhile_nil, ← List.nil_append [l], List.rdropWhile_concat]
      cases l <;> simp
  | append_singleton ls k ih =>
      rw [← List.cons_append, List.rdropWhile_concat, List.rdropWhile_concat, ih]
      cases k with
      | nil => rfl
      | cons c k => simp

theorem dropFinalBlanks_cons_inj {l k : List Char} {ls ks : List (List Char)} :
    dropFinalBlanks (l :: ls) = dropFinalBlanks (k :: ks) ↔
      l = k ∧ dropFinalBlanks ls = dropFinalBlanks ks := by
  rw [dropFinalBlanks_cons, dropFinalBlanks_cons]
  constructor
  · intro h
    split at h
    case isTrue hl =>
        split at h
        case isTrue hk => exact ⟨hl.1.trans hk.1.symm, hl.2.trans hk.2.symm⟩
        case isFalse => cases h
    case isFalse =>
        split at h
        case isTrue => cases h
        case isFalse => exact List.cons.inj h
  · rintro ⟨rfl, h⟩
    rw [h]

/-- The output read as lines again: its lines, and the empty text after the last line feed. -/
theorem lines_flatMap {ls : List (List Char)} (h : ∀ l ∈ ls, '\n' ∉ l) :
    Source.lines (ls.flatMap (· ++ ['\n'])) = ls ++ [[]] := by
  induction ls with
  | nil => rfl
  | cons l ls ih =>
      obtain ⟨hl, hls⟩ := List.forall_mem_cons.1 h
      rw [List.flatMap_cons, List.append_assoc, List.singleton_append, Source.lines,
        List.splitOn_append_cons_self_of_not_mem hl, ← Source.lines, ih hls, List.cons_append]

theorem lines_render {ts : List Token} (h : ∀ t ∈ ts, '\n' ∉ t.text) :
    Source.lines (render ts) = dropFinalBlanks (linesAfter none ts) ++ [[]] := by
  rw [render_eq]
  apply lines_flatMap
  intro l hl
  rcases mem_linesAfter (mem_of_mem_dropFinalBlanks hl) with rfl | ⟨t, ht, rfl⟩
  · simp
  · rw [Token.line]
    split
    · simp
    · simp [h t ht]

theorem render_inj {ts us : List Token} (ht : ∀ t ∈ ts, '\n' ∉ t.text)
    (hu : ∀ t ∈ us, '\n' ∉ t.text) :
    render ts = render us ↔
      dropFinalBlanks (linesAfter none ts) = dropFinalBlanks (linesAfter none us) := by
  constructor
  · intro h
    have := congrArg Source.lines h
    rw [lines_render ht, lines_render hu] at this
    exact List.append_cancel_right this
  · intro h
    rw [render_eq, render_eq, h]

theorem no_newline_of_mem_lines {x l : List Char} (h : l ∈ Source.lines x) : '\n' ∉ l := by
  induction x generalizing l with
  | nil =>
      have : l = [] := List.mem_singleton.1 h
      simp [this]
  | cons c x ih =>
      rw [Source.lines, List.splitOn_cons_eq_if_modifyHead] at h
      split at h
      case isTrue =>
          rcases List.mem_cons.1 h with rfl | h
          · simp
          · exact ih h
      case isFalse hc =>
          cases hx : Source.lines x with
          | nil => exact absurd hx (List.splitOn_ne_nil _ _)
          | cons k ks =>
              rw [show x.splitOn '\n' = k :: ks from hx, List.modifyHead_cons, List.mem_cons] at h
              have hmem : ∀ m ∈ k :: ks, '\n' ∉ m := fun m hm => ih (hx ▸ hm)
              rcases h with rfl | h
              · have hne : '\n' ≠ c := fun he => hc (by rw [he]; exact beq_self_eq_true c)
                simpa [hne] using hmem k (List.mem_cons_self ..)
              · exact hmem l (List.mem_cons_of_mem _ h)

theorem flatMap_dropFinalBlanks {β : Type} (f : List Char → List β) (hf : f [] = [])
    (ls : List (List Char)) : (dropFinalBlanks ls).flatMap f = ls.flatMap f := by
  obtain ⟨n, hn⟩ := exists_dropFinalBlanks ls
  conv_rhs => rw [hn, List.flatMap_append]
  simp [hf]

theorem flatMap_linesAfter {β : Type} (f : List Char → List β) (hf : f [] = [])
    (prev : Option Token) (ts : List Token) :
    (linesAfter prev ts).flatMap f = ts.flatMap fun t => f t.line := by
  induction ts generalizing prev with
  | nil => rfl
  | cons t ts ih =>
      rw [linesAfter_cons, List.flatMap_append, List.flatMap_cons, List.flatMap_cons, ih]
      split <;> simp [hf]

theorem lexemes_render (ts : List Token) :
    lexemes (render ts) = ts.flatMap fun t => lexemes t.text := by
  rw [render_eq, lexemes_flatMap_lines, flatMap_dropFinalBlanks _ lexemes_nil,
    flatMap_linesAfter _ lexemes_nil]
  congr 1
  funext t
  rw [← lexemes_trim t.line, t.trim_line, lexemes_trim]

end SchemaLint.Layout
