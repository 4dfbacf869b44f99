/-! Passes: a list is read item by item, a state is kept, and each item emits outputs. -/

namespace SchemaLint

universe u v w

/-- The outputs of one step, reversed in front of those before. -/
def Pass.advance {σ : Type u} {α : Type v} {β : Type w} (step : σ → α → σ × List β)
    (sofar : σ × List β) (item : α) : σ × List β :=
  let (state, outputs) := step sofar.1 item
  (state, outputs.reverse ++ sofar.2)

/-- The state after all items, and the outputs in order. -/
def Pass.run {σ : Type u} {α : Type v} {β : Type w} (step : σ → α → σ × List β) (state : σ)
    (items : List α) : σ × List β :=
  let (state, outputs) := items.foldl (advance step) (state, [])
  (state, outputs.reverse)

/-- What each item leads to: the state after it and its outputs. -/
def Pass.trace {σ : Type u} {α : Type v} {β : Type w} (step : σ → α → σ × List β) (state : σ)
    (items : List α) : List (σ × List β) :=
  (run (fun state item => ((step state item).1, [step state item])) state items).2

namespace Pass
variable {σ : Type u} {α : Type v} {β : Type w} {step : σ → α → σ × List β}

theorem foldl_advance (state : σ) (sofar : List β) (items : List α) :
    items.foldl (advance step) (state, sofar) =
      ((run step state items).1, (run step state items).2.reverse ++ sofar) := by
  induction items generalizing state sofar with
  | nil => simp [run]
  | cons item items ih =>
    have h := ih (step state item).1 ((step state item).2.reverse ++ [])
    simp only [run, List.foldl_cons, advance] at h ⊢
    rw [ih, h]
    simp [run]

@[simp] theorem run_nil (state : σ) : run step state [] = (state, []) := rfl

theorem run_cons (state : σ) (item : α) (items : List α) :
    run step state (item :: items) =
      ((run step (step state item).1 items).1,
        (step state item).2 ++ (run step (step state item).1 items).2) := by
  rw [run, List.foldl_cons]
  simp [advance, foldl_advance]

theorem run_zipIdx_cons {step : σ → α × Nat → σ × List β} (state : σ) (x : α) (xs : List α)
    (n : Nat) :
    run step state ((x :: xs).zipIdx n) =
      ((run step (step state (x, n)).1 (xs.zipIdx (n + 1))).1,
        (step state (x, n)).2 ++ (run step (step state (x, n)).1 (xs.zipIdx (n + 1))).2) := by
  rw [List.zipIdx_cons, run_cons]

theorem run_append (state : σ) (xs ys : List α) :
    run step state (xs ++ ys) =
      ((run step (run step state xs).1 ys).1,
        (run step state xs).2 ++ (run step (run step state xs).1 ys).2) := by
  induction xs generalizing state with
  | nil => simp
  | cons x xs ih => simp [run_cons, ih]

theorem run_zipIdx_append {step : σ → α × Nat → σ × List β} (state : σ) (xs ys : List α) (n : Nat) :
    run step state ((xs ++ ys).zipIdx n) =
      ((run step (run step state (xs.zipIdx n)).1 (ys.zipIdx (n + xs.length))).1,
        (run step state (xs.zipIdx n)).2 ++
          (run step (run step state (xs.zipIdx n)).1 (ys.zipIdx (n + xs.length))).2) := by
  rw [List.zipIdx_append, run_append]

theorem run_map {σ' : Type u} {α' : Type v} {β' : Type w} {step' : σ' → α' → σ' × List β'}
    {f : σ → σ'} {g : α → α'} {h : β → β'}
    (hstep : ∀ s x, step' (f s) (g x) = (f (step s x).1, (step s x).2.map h)) (s : σ)
    (items : List α) :
    run step' (f s) (items.map g) = (f (run step s items).1, (run step s items).2.map h) := by
  induction items generalizing s with
  | nil => rfl
  | cons x items ih => rw [List.map_cons, run_cons, run_cons, hstep, ih, List.map_append]

/-- What every step on an item of the list keeps, the run keeps; what holds of the outputs of every
such step holds of those of the run. -/
theorem run_invariant {I : σ → Prop} {P : β → Prop} {items : List α}
    (h : ∀ t, I t → ∀ item ∈ items, I (step t item).1 ∧ ∀ o ∈ (step t item).2, P o) {s : σ}
    (hs : I s) : I (run step s items).1 ∧ ∀ o ∈ (run step s items).2, P o := by
  induction items generalizing s with
  | nil => exact ⟨hs, nofun⟩
  | cons item items ih =>
      obtain ⟨hitem, hout⟩ := h s hs item List.mem_cons_self
      obtain ⟨hrest, houts⟩ := ih (fun t ht i hi => h t ht i (List.mem_cons_of_mem _ hi)) hitem
      rw [run_cons]
      exact ⟨hrest, List.forall_mem_append.2 ⟨hout, houts⟩⟩

end Pass

end SchemaLint
