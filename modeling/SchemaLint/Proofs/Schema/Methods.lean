import SchemaLint.Proofs.Schema.Statements

/-! The methods of a schema, whatever their white space, and the openers of its blocks. -/

namespace SchemaLint.Schema
open SchemaLint.Text SchemaLint.Line SchemaLint.Layout Chunk

theorem isMark_of_isTerm {c : Char} (h : isTerm c) : isMark c = false := by
  cases hm : isMark c with
  | false => rfl
  | true =>
      simp only [isMark, Bool.or_eq_true, beq_iff_eq] at hm
      rcases hm with (((rfl | rfl) | rfl) | rfl) | rfl <;> revert h <;> decide

theorem Operand.term (o : Operand) : Term o.text := by
  rw [Operand.text]
  split
  · exact term_append.2 ⟨by decide, o.type.term⟩
  · exact o.type.term

theorem Operand.ne_nil (o : Operand) : o.text ≠ [] := by
  rw [Operand.text]
  split
  · simp
  · exact o.type.ne_nil

theorem Operand.solid (o : Operand) : StartsSolid o.text ∧ EndsSolid o.text := by
  have h := solid_of_forall o.type.solid
  rw [Operand.text]
  split
  · exact ⟨(startsSolid_append (by decide)).2 (by decide), (endsSolid_append o.type.ne_nil).2 h.2⟩
  · exact h

theorem head?_placeClosing (s : List Char) : (placeClosing s).head? = some ')' := by
  rw [placeClosing]
  split <;> rfl

/-- The white space around the parentheses of an operand is dropped. -/
theorem spaceMethod_operand {o : Operand} {g u x : List Char} (hg : Blank g)
    (hu : FitAll o.chunks u) (hn : x ≠ []) (hs : EndsSolid x) :
    spaceMethod (g ++ (u ++ x)) = '(' :: (o.text ++ placeClosing (spaceMethod x)) := by
  obtain ⟨_, _, rfl, ⟨k, _, hk, ⟨_, _, rfl, ⟨l, _, hl, ⟨_, _, rfl, rfl, rfl⟩, rfl⟩, rfl⟩, rfl⟩,
    rfl⟩ := hu
  have hclose : spaceMethod (')' :: x) = placeClosing (spaceMethod x) := by
    rw [spaceMethod_cons hn hs, if_neg (by decide), placeInMethod_closing]
  have hcs : EndsSolid (')' :: x) := (endsSolid_append (s := [')']) hn).2 hs
  have hblank : spaceMethod (l ++ ')' :: x) = placeClosing (spaceMethod x) := by
    rw [spaceMethod_blank_append hl (by simp) hcs, hclose]
    rw [hclose, head?_placeClosing]
    exact .inl rfl
  have hls : EndsSolid (l ++ ')' :: x) := (endsSolid_append (by simp)).2 hcs
  have htext : spaceMethod (o.text ++ (l ++ ')' :: x)) =
      o.text ++ placeClosing (spaceMethod x) := by
    rw [spaceMethod_append (fun c hc => isMark_of_isTerm (o.term c hc)) o.solid.2 (by simp) hls,
      hblank]
  have hos : EndsSolid (o.text ++ (l ++ ')' :: x)) := (endsSolid_append (by simp)).2 hls
  have hopen : spaceMethod ('(' :: (k ++ (o.text ++ (l ++ ')' :: x)))) =
      '(' :: (o.text ++ placeClosing (spaceMethod x)) := by
    rw [spaceMethod_cons (by simp) ((endsSolid_append (by simp)).2 hos), if_pos rfl,
      trimStart_append hk, ((startsSolid_append o.ne_nil).2 o.solid.1).trimStart, htext,
      placeInMethod_of_solid (by decide) (by decide)]
  have hall : EndsSolid ('(' :: (k ++ (o.text ++ (l ++ ')' :: x)))) :=
    (endsSolid_append (s := '(' :: k) (by simp)).2 hos
  have hassoc : g ++ (['('] ++ (k ++ (o.text ++ (l ++ ([')'] ++ [])))) ++ x) =
      g ++ '(' :: (k ++ (o.text ++ (l ++ ')' :: x))) := by simp
  rw [hassoc, spaceMethod_blank_append hg (by simp) hall, hopen]
  rw [hopen]
  exact .inl rfl

/-- What ends a method keeps its form before a parenthesis is put before it. -/
structure Ending (chunks : List Chunk) : Prop where
  ne_nil : ∀ {x}, FitAll chunks x → x ≠ []
  solid : ∀ {x}, FitAll chunks x → EndsSolid x
  placed : ∀ {x}, FitAll chunks x → placeClosing (spaceMethod x) = ')' :: printAll chunks

theorem ending_mark {chunk : Chunk} {m : Char} (hchunk : ∀ {g}, chunk.Fits g → Blank g)
    (hm : isBlank m = false)
    (hspace : (spaceMethod [m]).head?.any isTight ∨ spaceMethod [m] = " \x7b".toList)
    (hplaced : placeClosing (spaceMethod [m]) = ')' :: printAll [chunk, .text [m]]) :
    Ending [chunk, .text [m]] := by
  have fit : ∀ {x}, FitAll [chunk, .text [m]] x → ∃ g, Blank g ∧ x = g ++ [m] := by
    rintro x ⟨g, _, hg, ⟨_, _, rfl, rfl, rfl⟩, rfl⟩
    exact ⟨g, hchunk hg, rfl⟩
  have hsolid : EndsSolid [m] := endsSolid_concat (s := []).2 hm
  refine ⟨fun h => ?_, fun h => ?_, fun h => ?_⟩ <;> obtain ⟨g, hg, rfl⟩ := fit h
  · simp
  · exact (endsSolid_append (by simp)).2 hsolid
  · rw [spaceMethod_blank_append hg (by simp) hsolid hspace, hplaced]

theorem ending_semicolon : Ending [.tight, .text [';']] :=
  ending_mark id (by decide) (.inl rfl) (by decide)

theorem ending_brace : Ending [.loose, .text ['{']] :=
  ending_mark id (by decide) (.inr (by decide)) (by decide)

theorem placeClosing_returns {g : List Char} (hg : Blank g) (s : List Char) :
    placeClosing ((g ++ "returns".toList) ++ '(' :: s) = ") returns (".toList ++ s := by
  have h : afterReturns? ((g ++ "returns".toList) ++ '(' :: s) = some s :=
    afterReturns?_iff.2 ⟨g, [], hg, .nil, by simp [returnsLead]⟩
  rw [placeClosing, h]

theorem readLine_of_method {s : Signature} {ending : List Chunk} (he : Ending ending)
    {t : List Char} (h : FitAll (s.chunks ++ ending) t) :
    readLine t = (.rpc, printAll (s.chunks ++ ending)) := by
  obtain ⟨u, x, hu, hx, rfl⟩ := fitAll_append.1 h
  obtain ⟨_, w, ⟨_, _, rfl, ⟨b, _, ⟨hbn, hb⟩, ⟨_, _, rfl, ⟨g, _, hg, rfl, rfl⟩, rfl⟩, rfl⟩, rfl⟩,
    hparts, rfl⟩ := fitAll_append.1 hu
  obtain ⟨request, w, hrequest, hrest, rfl⟩ := fitAll_append.1 hparts
  obtain ⟨_, response, ⟨k, _, hk, ⟨_, _, rfl, ⟨l, _, hl, rfl, rfl⟩, rfl⟩, rfl⟩, hresponse, rfl⟩ :=
    fitAll_append.1 hrest
  have hn := he.ne_nil hx
  have hs := he.solid hx
  -- the response, then the word before it, then the request, then the name
  have hresponse' := spaceMethod_operand hl hresponse hn hs
  rw [he.placed hx] at hresponse'
  have hword : ∀ c ∈ k ++ "returns".toList, isMark c = false :=
    List.forall_mem_append.2 ⟨fun c hc => isMark_of_isBlank (hk c hc), by decide⟩
  have hs₁ : EndsSolid (l ++ (response ++ x)) := by simpa [endsSolid_append, hn] using hs
  have hreturns := spaceMethod_append hword ((endsSolid_append (by decide)).2 (by decide))
    (by simp [hn]) hs₁
  rw [hresponse'] at hreturns
  have hs₂ : EndsSolid ((k ++ "returns".toList) ++ (l ++ (response ++ x))) :=
    (endsSolid_append (by simp [hn])).2 hs₁
  have hrequest' := spaceMethod_operand hg hrequest (by simp) hs₂
  rw [hreturns, placeClosing_returns hk] at hrequest'
  have hname : ∀ c ∈ "rpc".toList ++ ' ' :: s.name.text, isMark c = false :=
    List.forall_mem_append.2 ⟨by decide, List.forall_mem_cons.2 ⟨by decide, fun c hc =>
      isMark_of_isTerm (s.name.term c hc)⟩⟩
  have hnames : EndsSolid ("rpc".toList ++ ' ' :: s.name.text) := by
    rw [endsSolid_append (by simp), ← List.singleton_append, endsSolid_append s.name.ne_nil]
    exact (solid_of_forall s.name.solid).2
  have hs₃ : EndsSolid (g ++ (request ++ ((k ++ "returns".toList) ++ (l ++ (response ++ x))))) :=
    (endsSolid_append (by simp)).2 ((endsSolid_append (by simp)).2 hs₂)
  have hall := spaceMethod_append hname hnames (by simp) hs₃
  rw [hrequest'] at hall
  obtain ⟨c, b, rfl⟩ := List.exists_cons_of_ne_nil hbn
  obtain ⟨hc, hb⟩ := blank_cons.1 hb
  have hsolid := startsSolid_of_solid s.name.ne_nil s.name.solid
    (t := g ++ (request ++ ((k ++ "returns".toList) ++ (l ++ (response ++ x)))))
  have hread := readLine_rpc hc (t := b ++ (s.name.text ++
    (g ++ (request ++ ((k ++ "returns".toList) ++ (l ++ (response ++ x)))))))
  rw [trimStart_append hb, hsolid.trimStart, spaceRpc_eq, spaceKeyword] at hread
  simp only [List.append_assoc, List.cons_append, List.append_nil] at hread hall ⊢
  rw [hread, hall]
  simp [Signature.chunks, Operand.chunks, printAll, Chunk.print]

end SchemaLint.Schema
