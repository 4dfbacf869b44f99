import SchemaLint.Proofs.Layout.Reading
import SchemaLint.Proofs.Layout.Rendering
import SchemaLint.Proofs.Layout.Spelling

/-! Formatting changes layout only: a source and its canonical layout have the same lexemes. -/

namespace SchemaLint.Layout
open SchemaLint.Text SchemaLint.Line

theorem lexemes_lines (x : List Char) : (Source.lines x).flatMap lexemes = lexemes x := by
  rw [← lexemes_intercalate, Source.lines, List.intercalate_splitOn]

theorem lexemes_lineToken (d : Nat) (l : List Char) : lexemes (lineToken d l).text = lexemes l := by
  rw [lineToken, ← (respaced_readLine (trim l)).lexemes, lexemes_trim]

theorem lexemes_braced (t : Token) : lexemes t.braced.text = lexemes t.text ++ [['{']] := by
  have : lexemes ['{'] = [['{']] := by decide
  rw [← this]
  exact lexemes_append_cons_blank t.text ['{'] (by decide)

theorem lexemes_split {t statement closer : List Char}
    (h : statementAndCloser? t = some (statement, closer)) :
    lexemes t = lexemes statement ++ lexemes closer := by
  obtain ⟨g, hg, rfl, -, -, -, hc⟩ := statementAndCloser?_eq_some_iff.1 h
  have hhead : ∀ b ∈ closer.head?, isWord b = false := by
    rcases closer_cases hc with rfl | rfl <;> decide
  rw [← List.append_assoc, lexemes_append (.of_head hhead), lexemes_append_blank hg]

theorem Reads.lexemes {d : Nat} {b : Bool} {ls : List (List Char)} {ts : List Token}
    (h : Reads d b ls ts) : (ts.flatMap fun t => lexemes t.text) = ls.flatMap lexemes := by
  induction h with
  | done => rfl
  | blank hl _ ih => rw [List.flatMap_cons, ← lexemes_trim, hl, lexemes_nil, List.nil_append, ih]
  | block _ _ ih => rw [List.flatMap_cons, List.flatMap_cons, lexemes_trim, ih]
  | close _ _ ih => rw [List.flatMap_cons, List.flatMap_cons, lexemes_trim, ih]
  | @split d l statement closer ls ts _ hs _ ih =>
      rw [ih, List.flatMap_cons, List.flatMap_cons, List.flatMap_cons, ← lexemes_trim l,
        lexemes_split hs, List.append_assoc]
  | line _ _ _ ih => rw [List.flatMap_cons, List.flatMap_cons, lexemes_lineToken, ih]
  | @braced d l brace gap ls ts _ _ hgap hbrace _ ih =>
      have hg : gap.flatMap Text.lexemes = [] := by
        rw [List.flatMap_eq_nil_iff]
        intro k hk
        rw [← lexemes_trim, hgap k hk, lexemes_nil]
      have hb : Text.lexemes brace = [['{']] := by
        rw [← lexemes_trim, hbrace]
        decide
      rw [List.flatMap_cons, List.flatMap_cons, List.flatMap_append, List.flatMap_cons,
        lexemes_braced, lexemes_lineToken, ih, hg, hb, List.append_assoc, List.nil_append]

theorem Reads.no_newline {d : Nat} {b : Bool} {ls : List (List Char)} {ts : List Token}
    (h : Reads d b ls ts) (hl : ∀ l ∈ ls, '\n' ∉ l) : ∀ t ∈ ts, '\n' ∉ t.text := by
  have trimmed : ∀ {l : List Char}, '\n' ∉ l → '\n' ∉ trim l := fun h hm => h (mem_of_mem_trim hm)
  have read : ∀ {d : Nat} {l : List Char}, '\n' ∉ l → '\n' ∉ (lineToken d l).text :=
    fun h => (respaced_readLine _).no_newline (trimmed h)
  induction h with
  | done => simp
  | blank _ _ ih => exact ih (List.forall_mem_cons.1 hl).2
  | block _ _ ih | close _ _ ih =>
      obtain ⟨hl, hls⟩ := List.forall_mem_cons.1 hl
      exact List.forall_mem_cons.2 ⟨trimmed hl, ih hls⟩
  | @split d l statement closer ls ts _ hs _ ih =>
      obtain ⟨hl, hls⟩ := List.forall_mem_cons.1 hl
      obtain ⟨g, -, he, -, -, -, -⟩ := statementAndCloser?_eq_some_iff.1 hs
      have hparts := trimmed hl
      simp only [he, List.mem_append, not_or] at hparts
      exact ih (List.forall_mem_cons.2 ⟨hparts.1, List.forall_mem_cons.2 ⟨hparts.2.2, hls⟩⟩)
  | line _ _ _ ih =>
      obtain ⟨hl, hls⟩ := List.forall_mem_cons.1 hl
      exact List.forall_mem_cons.2 ⟨read hl, ih hls⟩
  | @braced d l brace gap ls ts _ _ _ _ _ ih =>
      obtain ⟨hl, hls⟩ := List.forall_mem_cons.1 hl
      refine List.forall_mem_cons.2 ⟨?_, ih fun k hk => hls k ?_⟩
      · rw [Token.braced, List.mem_append, not_or]
        exact ⟨read hl, by decide⟩
      · exact List.mem_append_right _ (List.mem_cons_of_mem _ hk)

/-- The lines of the output are the ones of the tokens, and the empty text at the end. -/
theorem Reads.lines_format {x : List Char} {ts : List Token}
    (h : Reads 0 false (Source.lines x) ts) :
    Source.lines (Source.format x) = dropFinalBlanks (linesAfter none ts) ++ [[]] := by
  rw [Source.format, reads_iff.1 h]
  exact lines_render (h.no_newline fun l => no_newline_of_mem_lines)

/-- Nothing is lost, added, reordered, glued or split. -/
theorem lexemes_format (x : List Char) : lexemes (Source.format x) = lexemes x := by
  rw [Source.format, lexemes_render, (reads_iff.2 rfl).lexemes, lexemes_lines]

example : lexemes (Source.format "a=1 ;\x7b b".toList) =
    ["a", "=", "1", ";", "\x7b", "b"].map String.toList := by decide

end SchemaLint.Layout
