import SchemaLint.Proofs.Document.Tree

/-! The lines of a well-formed source one after another: each stands where it may, in the blocks
that the lines before it leave open. -/

namespace SchemaLint.Document
open SchemaLint.Schema
open SchemaLint.Structure (Block)

/-- A line that is what it says, in blocks where it may stand. -/
inductive Row.Sound : Row → Prop
  | filler (outer : List Block) (f : Filler) : Sound ⟨outer, .filler, f.raw⟩
  | leaf {outer : List Block} {place : Place} {l : Leaf}
      (inside : outer.head?.map Block.kind = place.kind?) (holds : Holds place l)
      (line : Written l.text) : Sound ⟨outer, .leaf l, line.raw⟩
  | opener {outer : List Block} {place inner : Place} {o : Opener}
      (inside : outer.head?.map Block.kind = place.kind?) (opens : Opens place o inner)
      (first : Written o.text) : Sound ⟨outer, .opener o, first.raw⟩
  | close (block : Block) (outer : List Block) (last : Written ['}']) :
      Sound ⟨block :: outer, .close, last.raw⟩

/-- Sound lines from line `n` on, each in the blocks that those before leave open. -/
inductive Flow : Nat → List Block → List Row → List Block → Prop
  | nil (n : Nat) (outer : List Block) : Flow n outer [] outer
  | cons {n : Nat} {row : Row} {rows : List Row} {final : List Block} (sound : row.Sound)
      (rest : Flow (n + 1) (row.item.after n row.outer) rows final) :
      Flow n row.outer (row :: rows) final

theorem Flow.append {n : Nat} {outer middle final : List Block} {rows more : List Row}
    (h : Flow n outer rows middle) (hmore : Flow (n + rows.length) middle more final) :
    Flow n outer (rows ++ more) final := by
  induction h with
  | nil => exact hmore
  | cons sound rest ih =>
      refine .cons sound (ih ?_)
      rwa [List.length_cons, Nat.add_comm _ 1, ← Nat.add_assoc] at hmore

theorem Flow.split {n : Nat} {outer final : List Block} {before after : List Row}
    (h : Flow n outer (before ++ after) final) :
    ∃ middle, Flow n outer before middle ∧ Flow (n + before.length) middle after final := by
  induction before generalizing n outer with
  | nil => exact ⟨outer, .nil n outer, h⟩
  | cons row before ih =>
      cases h with
      | cons sound rest =>
          obtain ⟨middle, hbefore, hafter⟩ := ih rest
          refine ⟨middle, .cons sound hbefore, ?_⟩
          rwa [List.length_cons, Nat.add_comm before.length 1, ← Nat.add_assoc]

theorem Flow.of_cons {n : Nat} {outer final : List Block} {row : Row} {rows : List Row}
    (h : Flow n outer (row :: rows) final) :
    row.outer = outer ∧ row.Sound ∧ Flow (n + 1) (row.item.after n row.outer) rows final := by
  cases h with
  | cons sound rest => exact ⟨rfl, sound, rest⟩

theorem flow_gapRows (n : Nat) (outer : List Block) (gap : List Filler) :
    Flow n outer (gapRows outer gap) outer := by
  induction gap generalizing n with
  | nil => exact .nil n outer
  | cons f gap ih => exact .cons (.filler outer f) (ih (n + 1))

theorem length_gapRows (outer : List Block) (gap : List Filler) :
    (gapRows outer gap).length = gap.length :=
  List.length_map ..

theorem Body.length_rows {place : Place} (b : Body place) (outer : List Block) (n : Nat) :
    (b.rows outer n).length = b.height := by
  induction b generalizing outer n with
  | done gap => exact length_gapRows outer gap
  | leaf gap l holds line rest ih =>
      rw [rows, List.length_append, length_gapRows, List.length_cons, ih, height]
  | block gap o opens first body last rest ihb ihr =>
      simp only [rows, height, List.length_append, length_gapRows, List.length_cons, ihb, ihr]

/-- The block that an opener opens is of the kind of the place inside. -/
theorem Opens.kind {place inner : Place} {o : Opener} (h : Opens place o inner) (n : Nat) :
    some (opened n o).kind = inner.kind? := by
  cases h <;> rfl

/-- The lines of a body stand in the blocks around it and close what they open. -/
theorem Body.flow {place : Place} (b : Body place) {outer : List Block} (n : Nat)
    (inside : outer.head?.map Block.kind = place.kind?) :
    Flow n outer (b.rows outer n) outer := by
  induction b generalizing outer n with
  | done gap => exact flow_gapRows n outer gap
  | leaf gap l holds line rest ih =>
      refine (flow_gapRows n outer gap).append ?_
      rw [length_gapRows]
      exact .cons (.leaf inside holds line) (ih (n + gap.length + 1) inside)
  | block gap o opens first body last rest ihb ihr =>
      have hinner : ([opened (n + gap.length) o] ++ outer).head?.map Block.kind = _ :=
        opens.kind (n + gap.length)
      have hbody := ihb (n + gap.length + 1) hinner
      have hrest := ihr (n + gap.length + 1 + body.height + 1) inside
      refine (flow_gapRows n outer gap).append ?_
      rw [length_gapRows]
      refine .cons (.opener inside opens first) (hbody.append ?_)
      rw [body.length_rows]
      exact .cons (.close (opened (n + gap.length) o) outer last) hrest

theorem flow (d : Document) : Flow 1 [] d.rows [] :=
  Body.flow d 1 rfl

end SchemaLint.Document
