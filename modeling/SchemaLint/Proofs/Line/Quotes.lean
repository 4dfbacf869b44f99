import SchemaLint.Proofs.Line.Respacing

/-! Quotes. The texts between neighbouring quotes, told apart by how many quotes precede them. -/

namespace SchemaLint.Line
open SchemaLint.Text

/-- The texts between neighbouring quotes, whichever of them open and close. -/
def between (s : List Char) : List (List Char) :=
  (s.splitOn '"').tail.dropLast

/-- The text before a quote; the first quote has the number zero. -/
def upToQuote (k : Nat) (s : List Char) : List Char :=
  ['"'].intercalate ((s.splitOn '"').take (k + 1))

theorem length_splitOn_quote (s : List Char) : (s.splitOn '"').length = s.count '"' + 1 := by
  induction s with
  | nil => rfl
  | cons c s ih =>
      rw [List.splitOn_cons_eq_if_modifyHead]
      by_cases hc : c = '"'
      · simp [hc, ih]
      · simp [hc, ih]

theorem length_between (s : List Char) : (between s).length = s.count '"' - 1 := by
  rw [between, List.length_dropLast, List.length_tail, length_splitOn_quote, Nat.add_sub_cancel]

theorem getElem?_between (before : List Char) {text : List Char} (rest : List Char)
    (h : '"' ∉ text) :
    (between (before ++ '"' :: (text ++ '"' :: rest)))[before.count '"']? = some text := by
  obtain ⟨first, pieces, hpieces⟩ := List.exists_cons_of_ne_nil (List.splitOn_ne_nil '"' before)
  have hlength := length_splitOn_quote before
  rw [hpieces, List.length_cons, Nat.add_right_cancel_iff] at hlength
  rw [between, List.splitOn_append_cons_self, List.splitOn_append_cons_self_of_not_mem h, hpieces,
    List.cons_append, List.tail_cons, List.dropLast_append_cons,
    List.dropLast_cons_of_ne_nil (List.splitOn_ne_nil _ _), ← hlength]
  simp

theorem exists_between {s : List Char} {k : Nat} (h : k < (between s).length) :
    ∃ before text rest, s = before ++ '"' :: (text ++ '"' :: rest) ∧ '"' ∉ text ∧
      before.count '"' = k := by
  rw [length_between] at h
  induction k generalizing s with
  | zero =>
      have hmem : '"' ∈ s := List.count_pos_iff.1 (by omega)
      obtain ⟨before, u, rfl, hbefore⟩ := List.eq_append_cons_of_mem hmem
      rw [List.count_append, List.count_cons_self, List.count_eq_zero.2 hbefore] at h
      have hmem : '"' ∈ u := List.count_pos_iff.1 (by omega)
      obtain ⟨text, rest, rfl, htext⟩ := List.eq_append_cons_of_mem hmem
      exact ⟨before, text, rest, rfl, htext, List.count_eq_zero.2 hbefore⟩
  | succ k ih =>
      have hmem : '"' ∈ s := List.count_pos_iff.1 (by omega)
      obtain ⟨first, u, rfl, hfirst⟩ := List.eq_append_cons_of_mem hmem
      rw [List.count_append, List.count_cons_self, List.count_eq_zero.2 hfirst] at h
      obtain ⟨before, text, rest, rfl, htext, hk⟩ := ih (s := u) (by omega)
      refine ⟨first ++ '"' :: before, text, rest, by simp, htext, ?_⟩
      rw [List.count_append, List.count_cons_self, List.count_eq_zero.2 hfirst, hk, Nat.zero_add]

/-- More text after a text adds to what its quotes enclose, and changes none of it. -/
theorem getElem?_between_append {s : List Char} {k : Nat} (h : k < (between s).length)
    (t : List Char) : (between (s ++ t))[k]? = (between s)[k]? := by
  obtain ⟨before, text, rest, rfl, htext, rfl⟩ := exists_between h
  rw [List.append_assoc, List.cons_append, List.append_assoc, List.cons_append,
    getElem?_between _ _ htext, getElem?_between _ _ htext]

theorem between_append_right {t : List Char} (h : '"' ∉ t) (s : List Char) :
    between (s ++ t) = between s := by
  have hlength : (between (s ++ t)).length = (between s).length := by
    rw [length_between, length_between, List.count_append, List.count_eq_zero.2 h, Nat.add_zero]
  refine List.ext_getElem? fun k => ?_
  by_cases hk : k < (between s).length
  · exact getElem?_between_append hk t
  · rw [List.getElem?_eq_none (by omega), List.getElem?_eq_none (by omega)]

theorem between_append_left {s : List Char} (h : '"' ∉ s) (t : List Char) :
    between (s ++ t) = between t := by
  by_cases ht : '"' ∈ t
  · obtain ⟨a, b, rfl, ha⟩ := List.eq_append_cons_of_mem ht
    have hsa : '"' ∉ s ++ a := by simp [h, ha]
    rw [between, between, ← List.append_assoc, List.splitOn_append_cons_self_of_not_mem hsa,
      List.splitOn_append_cons_self_of_not_mem ha, List.tail_cons, List.tail_cons]
  · have hst : '"' ∉ s ++ t := by simp [h, ht]
    rw [between, between, List.splitOn_eq_singleton hst, List.splitOn_eq_singleton ht]
    rfl

theorem upToQuote_append (before rest : List Char) :
    upToQuote (before.count '"') (before ++ '"' :: rest) = before := by
  rw [upToQuote, List.splitOn_append_cons_self, ← length_splitOn_quote, List.take_left,
    List.intercalate_splitOn]

theorem no_quote_of_blank {g : List Char} (h : Blank g) : '"' ∉ g :=
  h.not_mem (by decide)

theorem between_trim (s : List Char) : between (trim s) = between s := by
  obtain ⟨g, k, hg, hk, he⟩ := exists_trim s
  conv_rhs => rw [he, between_append_right (no_quote_of_blank hk),
    between_append_left (no_quote_of_blank hg)]

end SchemaLint.Line
