import SchemaLint.Proofs.Layout.Rendering
import SchemaLint.Proofs.Schema.Layouts

/-! Every layout of a schema is formatted to its canonical print, and the print is a layout. -/

namespace SchemaLint.Schema
open SchemaLint.Text SchemaLint.Line SchemaLint.Layout Chunk

def Placed.token (p : Placed) : Token :=
  ⟨p.piece.text, p.depth, p.piece.category⟩

/-- Lines from a depth on that return to it, none of which stands less deep. -/
structure Level (d : Nat) (ps : List Placed) : Prop where
  tokens : ∀ rest, tokensAt d (ps.map Placed.piece ++ rest) =
    ps.map Placed.token ++ tokensAt d rest
  deep : ∀ p ∈ ps, d ≤ p.depth

theorem Level.nil (d : Nat) : Level d [] :=
  ⟨fun _ => rfl, by simp⟩

theorem Level.append {d : Nat} {ps qs : List Placed} (hp : Level d ps) (hq : Level d qs) :
    Level d (ps ++ qs) := by
  refine ⟨fun rest => ?_, List.forall_mem_append.2 ⟨hp.deep, hq.deep⟩⟩
  rw [List.map_append, List.append_assoc, hp.tokens, hq.tokens, List.map_append, List.append_assoc]

theorem Level.flatMap {α : Type} {d : Nat} {f : α → List Placed} {items : List α}
    (h : ∀ i ∈ items, Level d (f i)) : Level d (items.flatMap f) := by
  induction items with
  | nil => exact .nil d
  | cons i items ih =>
      obtain ⟨hi, h⟩ := List.forall_mem_cons.1 h
      exact hi.append (ih h)

theorem Level.map {α : Type} {d : Nat} {f : α → Placed} {items : List α}
    (h : ∀ i ∈ items, Level d [f i]) : Level d (items.map f) := by
  rw [List.map_eq_flatMap]
  exact .flatMap h

theorem level_note (d : Nat) (n : Note) : Level d [⟨d, .note n⟩] :=
  ⟨fun _ => rfl, by simp⟩

theorem level_header (d : Nat) (h : Header) : Level d [⟨d, .header h⟩] :=
  ⟨fun _ => rfl, by simp⟩

theorem level_statement (d : Nat) (s : Statement) : Level d [⟨d, .statement s⟩] :=
  ⟨fun _ => rfl, by simp⟩

theorem level_notes (d : Nat) (notes : List Note) : Level d (placedNotes d notes) :=
  .map fun n _ => level_note d n

theorem Level.enclosed {d : Nat} {body : List Placed} (o : Opener) (h : Level (d + 1) body) :
    Level d (enclosed d o body) := by
  refine ⟨fun rest => ?_, ?_⟩
  · have := h.tokens (.close :: rest)
    simp only [Schema.enclosed, List.map_cons, List.map_append, List.cons_append, List.append_assoc,
      List.nil_append, List.map_nil, tokensAt]
    rw [show Piece.after d (.opener o) = d + 1 from rfl, this]
    rfl
  · intro p hp
    rw [Schema.enclosed, List.mem_cons, List.mem_append, List.mem_singleton] at hp
    rcases hp with rfl | hp | rfl
    · exact Nat.le_refl d
    · exact Nat.le_of_succ_le (h.deep p hp)
    · exact Nat.le_refl d

theorem level_statements {α : Type} (d : Nat) (f : α → Statement) (items : List (Noted α)) :
    Level d (statements d f items) :=
  .flatMap fun i _ => (level_notes d i.notes).append (level_statement d _)

theorem Method.level (d : Nat) (m : Method) : Level d (m.placed d) := by
  unfold Method.placed
  split
  · exact level_statement d _
  · exact .enclosed _ ((level_notes _ _).append (level_statement _ _))

theorem Item.level (d : Nat) (i : Item) : Level d (i.placed d) := by
  cases i with
  | field f => exact level_statement d _
  | reserved r => exact level_statement d _
  | oneof name fields => exact .enclosed _ (level_statements _ _ _)
  | enum name values => exact .enclosed _ (level_statements _ _ _)

theorem Members.level (d : Nat) (ms : Members) : Level d (ms.placed d) := by
  induction ms generalizing d with
  | nil => exact .nil d
  | item notes i rest ih => exact (level_notes d notes).append ((i.level d).append (ih d))
  | message notes name members rest ihm ihr =>
      exact (level_notes d notes).append ((Level.enclosed _ (ihm (d + 1))).append (ihr d))

theorem Declaration.placed_eq (d : Declaration) :
    ∃ keyword name body, d.placed = enclosed 0 (.block keyword name) body ∧ Level 1 body := by
  cases d with
  | message name members => exact ⟨.message, name, _, rfl, members.level 1⟩
  | enum name values => exact ⟨.enum, name, _, rfl, level_statements 1 _ values⟩
  | service name methods =>
      exact ⟨.service, name, _, rfl,
        .flatMap fun m _ => (level_notes 1 m.notes).append (m.item.level 1)⟩

theorem Level.tokensAt {d : Nat} {ps : List Placed} (h : Level d ps) :
    tokensAt d (ps.map Placed.piece) = ps.map Placed.token := by
  have := h.tokens []
  rwa [List.append_nil, show Schema.tokensAt d [] = [] from rfl, List.append_nil] at this

theorem level_paragraphs (s : Schema) : Level 0 s.paragraphs.flatten := by
  have hmem : ∀ ps ∈ s.paragraphs, Level 0 ps := by
    intro ps hps
    rw [paragraphs, List.mem_append, List.mem_map, List.mem_map] at hps
    rcases hps with ⟨hs, -, rfl⟩ | ⟨d, -, rfl⟩
    · exact .map fun h _ => level_header 0 h
    · obtain ⟨keyword, name, body, he, hbody⟩ := d.item.placed_eq
      rw [he]
      exact (level_notes 0 d.notes).append (.enclosed _ hbody)
  have := Level.flatMap hmem
  rwa [List.flatMap_id'] at this

theorem needsBlank_deep {p t : Token} (h : 0 < t.depth) : needsBlank p t = false :=
  if_pos h

theorem needsBlank_close {p t : Token} (ht : t.category = .close)
    (hp : p.category.isHeader = false ∨ 0 < p.depth) : needsBlank p t = false := by
  rcases hp with hp | hp
  · cases hc : p.category <;> simp_all [needsBlank, Category.isHeader]
  · simp only [needsBlank, ht, hp, if_true, gt_iff_lt]
    split
    · rfl
    · simp

theorem needsBlank_comment {p t : Token} (hp : p.category = .comment)
    (ht : t.category = .comment ∨ t.category = .block) : needsBlank p t = false := by
  rcases ht with ht | ht <;> simp [needsBlank, hp, ht, Category.isHeader]

theorem isChain_of_forall {α : Type} {R : α → α → Prop} {l : List α}
    (h : ∀ a ∈ l, ∀ b ∈ l, R a b) : l.IsChain R :=
  (List.pairwise_of_forall_mem_list fun a ha b hb => h a ha b hb).isChain

theorem quiet_declaration (d : Noted Declaration) :
    Quiet ((placedNotes 0 d.notes ++ d.item.placed).map Placed.token) := by
  obtain ⟨keyword, name, body, he, hbody⟩ := d.item.placed_eq
  have hdeep : ∀ t ∈ body.map Placed.token, 0 < t.depth := by
    rintro t ht
    obtain ⟨p, hp, rfl⟩ := List.mem_map.1 ht
    exact hbody.deep p hp
  have hnotes : ∀ t ∈ (placedNotes 0 d.notes).map Placed.token, t.category = .comment := by
    intro t ht
    simp only [placedNotes, List.map_map, List.mem_map] at ht
    obtain ⟨n, -, rfl⟩ := ht
    rfl
  rw [he, enclosed, List.map_append, List.map_cons, List.map_append]
  refine List.isChain_append.2 ⟨?_, ?_, ?_⟩
  · exact isChain_of_forall fun p hp t ht => needsBlank_comment (hnotes p hp) (.inl (hnotes t ht))
  · refine List.isChain_cons.2 ⟨?_, List.isChain_append.2 ⟨?_, List.isChain_singleton _, ?_⟩⟩
    · intro t ht
      cases body with
      | nil =>
          cases ht
          exact needsBlank_close rfl (.inl rfl)
      | cons p body =>
          cases ht
          exact needsBlank_deep (hdeep _ (List.mem_cons_self ..))
    · exact isChain_of_forall fun p _ t ht => needsBlank_deep (hdeep t ht)
    · intro p hp t ht
      cases ht
      exact needsBlank_close rfl (.inr (hdeep p (List.mem_of_getLast? hp)))
  · intro p hp t ht
    cases ht
    exact needsBlank_comment (hnotes p (List.mem_of_getLast? hp)) (.inr rfl)

theorem needsBlank_header (h k : Header) :
    needsBlank (Placed.token ⟨0, .header h⟩) (Placed.token ⟨0, .header k⟩) =
      decide (k.category ≠ h.category) := by
  cases h <;> cases k <;> rfl

theorem declaration_ends (d : Noted Declaration) :
    ∃ t ts u, (placedNotes 0 d.notes ++ d.item.placed).map Placed.token = t :: ts ∧
      t.depth = 0 ∧ (t.category = .comment ∨ t.category = .block) ∧
      (t :: ts).getLast? = some u ∧ u.category = .close := by
  obtain ⟨keyword, name, body, he, -⟩ := d.item.placed_eq
  have hlast : ((placedNotes 0 d.notes ++ d.item.placed).map Placed.token).getLast? =
      some (Placed.token ⟨0, .close⟩) := by
    rw [he, enclosed, ← List.cons_append, ← List.append_assoc, List.map_append]
    exact List.getLast?_concat
  cases hn : d.notes with
  | nil =>
      rw [hn, he] at hlast
      exact ⟨_, _, _, by rw [he]; rfl, rfl, .inr rfl, hlast, rfl⟩
  | cons n notes =>
      rw [hn] at hlast
      exact ⟨_, _, _, rfl, rfl, .inl rfl, hlast, rfl⟩

theorem quiet_paragraphs (s : Schema) :
    ∀ ts ∈ s.paragraphs.map (·.map Placed.token), ts ≠ [] ∧ Quiet ts := by
  intro ts hts
  obtain ⟨ps, hps, rfl⟩ := List.mem_map.1 hts
  rw [paragraphs, List.mem_append, List.mem_map, List.mem_map] at hps
  rcases hps with ⟨hs, hhs, rfl⟩ | ⟨d, -, rfl⟩
  · refine ⟨by simp [List.ne_nil_of_mem_splitBy hhs], ?_⟩
    rw [Quiet, List.map_map, List.isChain_map]
    apply (List.isChain_of_mem_splitBy hhs).imp
    intro h k hk
    have hk : h.category = k.category := by simpa using hk
    change needsBlank (Placed.token ⟨0, .header h⟩) (Placed.token ⟨0, .header k⟩) = false
    rw [needsBlank_header]
    simp [hk]
  · obtain ⟨t, ts, u, he, -⟩ := declaration_ends d
    exact ⟨by simp [he], quiet_declaration d⟩

theorem needsBlank_declaration {p t : Token} (ht : t.depth = 0)
    (hc : t.category = .comment ∨ t.category = .block)
    (hp : p.category = .close ∨ ∃ h : Header, p = Placed.token ⟨0, .header h⟩) :
    needsBlank p t := by
  rcases hp with hp | ⟨h, rfl⟩
  · rcases hc with hc | hc <;> simp [needsBlank, ht, hc, hp]
  · rcases hc with hc | hc <;> cases h <;>
      simp [needsBlank, ht, hc, Placed.token, Piece.category, Header.category, Category.isHeader]

theorem apart_paragraphs (s : Schema) :
    (s.paragraphs.map (·.map Placed.token)).IsChain fun ts us =>
      ∀ p ∈ ts.getLast?, ∀ t ∈ us.head?, needsBlank p t := by
  have first : ∀ (d : Noted Declaration) {p : Token},
      p.category = .close ∨ (∃ h : Header, p = Placed.token ⟨0, .header h⟩) →
      ∀ t ∈ ((placedNotes 0 d.notes ++ d.item.placed).map Placed.token).head?, needsBlank p t := by
    intro d p hp t ht
    obtain ⟨u, us, -, he, hdepth, hc, -⟩ := declaration_ends d
    rw [he] at ht
    cases ht
    exact needsBlank_declaration hdepth hc hp
  rw [paragraphs, List.map_append, List.map_map, List.map_map]
  refine List.isChain_append.2 ⟨?_, ?_, ?_⟩
  · rw [List.isChain_map]
    apply (List.isChain_getLast_head_splitBy _ _).imp
    intro hs ks hdiff p hp t ht
    obtain ⟨hhs, hks, hdiff⟩ := hdiff
    rw [Function.comp_apply, List.map_map, List.getLast?_map,
      List.getLast?_eq_some_getLast hhs] at hp
    rw [Function.comp_apply, List.map_map, List.head?_map, List.head?_eq_some_head hks] at ht
    cases hp
    cases ht
    change needsBlank (Placed.token ⟨0, .header _⟩) (Placed.token ⟨0, .header _⟩)
    rw [needsBlank_header]
    exact decide_eq_true (Ne.symm (of_decide_eq_false hdiff))
  · rw [List.isChain_map]
    refine isChain_of_forall fun d _ e _ p hp => first e (.inl ?_)
    obtain ⟨t, ts, u, he, -, -, hlast, hclose⟩ := declaration_ends d
    rw [Function.comp_apply, he, hlast] at hp
    cases hp
    exact hclose
  · intro ts hts us hus p hp
    obtain ⟨hs, -, rfl⟩ := List.mem_map.1 (List.mem_of_getLast? hts)
    obtain ⟨d, -, rfl⟩ := List.mem_map.1 (List.mem_of_head? hus)
    rw [Function.comp_apply, List.map_map] at hp
    obtain ⟨h, -, rfl⟩ := List.mem_map.1 (List.mem_of_getLast? hp)
    exact first d (.inr ⟨h, rfl⟩)

/-- The lines of the tokens of a schema are the ones of its canonical print. -/
theorem linesAfter_paragraphs (s : Schema) :
    linesAfter none (s.paragraphs.flatten.map Placed.token) = s.lines := by
  have hline : ∀ p : Placed, p.token.line = p.line := fun p => if_neg p.piece.trim_text.1
  rw [List.map_flatten, linesAfter_flatten (quiet_paragraphs s) (apart_paragraphs s) (by simp),
    lines, List.map_map]
  simp [Function.comp_def, hline]

theorem Piece.no_newline (p : Piece) : '\n' ∉ p.text := by
  cases p with
  | note n =>
      rw [show (Piece.note n).text = n.text from List.append_nil _]
      exact n.noFeed
  | header h => exact fun hm => (h.inline _ hm).2.2 rfl
  | statement s => exact s.inner.not_mem (by decide)
  | opener o =>
      obtain ⟨front, hfront, he⟩ := o.text_eq
      rw [Piece.text, Piece.chunks, he, List.mem_append, not_or]
      exact ⟨hfront.not_mem (by decide), by decide⟩
  | close => decide

theorem print_eq (s : Schema) : s.print = render (s.paragraphs.flatten.map Placed.token) := by
  have hn : ∀ t ∈ s.paragraphs.flatten.map Placed.token, t.text ≠ [] := by
    intro t ht
    obtain ⟨p, -, rfl⟩ := List.mem_map.1 ht
    exact p.piece.trim_text.1
  rw [render_eq, dropFinalBlanks_linesAfter hn, linesAfter_paragraphs, print]

theorem format_of_isLayout {s : Schema} {x : List Char} (h : s.IsLayout x) :
    Source.format x = s.print := by
  have hreads := Lays.reads h 0
  rw [pieces, (level_paragraphs s).tokensAt] at hreads
  rw [Source.format, reads_iff.1 hreads, print_eq]

theorem lays_linesAfter (ps : List Placed) (prev : Option Token) :
    Lays (ps.map Placed.piece) (linesAfter prev (ps.map Placed.token) ++ [[]]) := by
  induction ps generalizing prev with
  | nil => exact .blank rfl .done
  | cons p ps ih =>
      have hfit : FitAll p.piece.chunks (trim p.token.line) := by
        rw [Token.trim_line, show p.token.text = p.piece.text from rfl, p.piece.trim_text.2]
        exact fitAll_printAll _
      have hline := Lays.line hfit (ih (some p.token))
      rw [List.map_cons, List.map_cons, linesAfter_cons]
      split
      · exact .blank rfl hline
      · exact hline

theorem isLayout_print (s : Schema) : s.IsLayout s.print := by
  have hn : ∀ t ∈ s.paragraphs.flatten.map Placed.token, t.text ≠ [] ∧ '\n' ∉ t.text := by
    intro t ht
    obtain ⟨p, -, rfl⟩ := List.mem_map.1 ht
    exact ⟨p.piece.trim_text.1, p.piece.no_newline⟩
  rw [IsLayout, print_eq, lines_render fun t ht => (hn t ht).2,
    dropFinalBlanks_linesAfter fun t ht => (hn t ht).1]
  exact lays_linesAfter _ none

/-- Every layout of a schema is formatted to its canonical print, and the print to itself. -/
theorem format_eq_print (s : Schema) :
    (∀ x, s.IsLayout x → Source.format x = s.print) ∧ Source.format s.print = s.print :=
  ⟨fun _ h => format_of_isLayout h, format_of_isLayout (isLayout_print s)⟩

def sampleNote : Note :=
  ⟨"// one field \x7b".toList, by decide, by decide, by decide⟩

def sample : Schema where
  headers := [.syntaxDecl sampleVersion]
  declarations := [⟨[sampleNote], .message sampleName (.item [] (.field sampleField) .nil)⟩]

def sampleText : List Char :=
  "\tsyntax=  \"proto3\";\n// one field \x7b\nmessage  User\n\n\x7b\nint32 id =1 ; \x7d".toList

/-- White space and braces in other places, and the same print. -/
theorem format_sample :
    sample.IsLayout sampleText ∧ Source.format sampleText = sample.print := by
  have h : sample.IsLayout sampleText := by
    change Lays [.header (.syntaxDecl sampleVersion), .note sampleNote,
      .opener (.block .message sampleName), .statement (.field sampleField), .close]
      ["\tsyntax=  \"proto3\";".toList, "// one field \x7b".toList, "message  User".toList, [],
        "\x7b".toList, "int32 id =1 ; \x7d".toList]
    have hsyntax : FitAll (Piece.header (.syntaxDecl sampleVersion)).chunks
        (trim "\tsyntax=  \"proto3\";".toList) :=
      ⟨_, _, rfl, ⟨[], _, by decide, ⟨_, _, rfl, ⟨[' ', ' '], _, by decide,
        ⟨_, _, rfl, rfl, rfl⟩, rfl⟩, rfl⟩, rfl⟩, by decide⟩
    have hnote : FitAll (Piece.note sampleNote).chunks (trim "// one field \x7b".toList) :=
      ⟨_, _, rfl, rfl, by decide⟩
    have hmessage : FitAll (Keyword.message.chunks sampleName) (trim "message  User".toList) :=
      ⟨_, _, rfl, ⟨[' ', ' '], _, by decide, ⟨_, _, rfl, rfl, rfl⟩, rfl⟩, by decide⟩
    have hfield : FitAll (Statement.field sampleField).chunks "int32 id =1 ;".toList :=
      ⟨_, _, rfl, ⟨[' '], _, by decide, ⟨_, _, rfl, ⟨[], _, by decide, ⟨_, _, rfl,
        ⟨[' '], _, by decide, ⟨_, _, rfl, rfl, rfl⟩, rfl⟩, rfl⟩, rfl⟩, rfl⟩, rfl⟩, by decide⟩
    have hbody : Lays [.statement (.field sampleField), .close] ["int32 id =1 ; \x7d".toList] :=
      .closed hfield (show Blank [' '] by decide) (by decide) .done
    have hopened := Lays.braceBelow hmessage (show ∀ k ∈ [[]], trim k = [] by decide)
      (show trim "\x7b".toList = ['{'] by decide) hbody
    exact .line hsyntax (.line hnote hopened)
  exact ⟨h, (format_eq_print sample).1 _ h⟩

end SchemaLint.Schema
