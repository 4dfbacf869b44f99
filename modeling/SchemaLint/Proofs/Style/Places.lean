import SchemaLint.Proofs.Style.Nesting

/-! Where style findings are. Every finding is at a line that the pass has read: its own, or one
that the pass remembers, which is that of the open enum, of an import or of a package declaration.
All but those about long lines are at the start of their line. -/

namespace SchemaLint.Style
open SchemaLint.Text SchemaLint.Line

/-- The column at which a cause is reported on a line. -/
def Cause.At (l : List Char) (column : Nat) : Cause → Prop
  | .longLine length => length = l.length ∧ maxLineLength < length ∧ column = maxLineLength + 1
  | _ => column = 1

theorem column_of_at {l : List Char} {column : Nat} {cause : Cause} (h : cause.At l column) :
    1 ≤ column ∧ column ≤ max 1 l.length := by
  cases cause with
  | longLine length =>
      obtain ⟨rfl, hlong, rfl⟩ := h
      exact ⟨Nat.le_add_left 1 _, Nat.le_trans hlong (Nat.le_max_right ..)⟩
  | _ =>
      obtain rfl : column = 1 := h
      omega

/-- The finding is at a line of the source and at the column of its cause. -/
def Finding.PointsInto (ls : List (List Char)) (f : Finding) : Prop :=
  ∃ l, (l, f.line) ∈ ls.zipIdx 1 ∧ f.cause.At l f.column

/-- The lines that the pass remembers are lines of the source. -/
structure State.Numbered (ls : List (List Char)) (s : State) : Prop where
  packageLine : ∀ n ∈ s.packageLine, Line.Numbered ls n
  imports : ∀ i ∈ s.imports, Line.Numbered ls i.line
  openEnum : ∀ e ∈ s.openEnum, Line.Numbered ls e.line

/-- A reader leaves only lines of the source, in its state and in its findings. -/
def Placed (ls : List (List Char)) (outcome : State × List Finding) : Prop :=
  outcome.1.Numbered ls ∧ ∀ f ∈ outcome.2, f.PointsInto ls

variable {ls : List (List Char)} {s : State} {n : Nat}

theorem pointsInto_start {f : Finding} (h : Line.Numbered ls f.line)
    (hat : ∀ l, f.cause.At l f.column) : f.PointsInto ls := by
  obtain ⟨l, hl⟩ := h
  exact ⟨l, hl, hat l⟩

theorem pointsInto_singleton {f : Finding} (h : Line.Numbered ls f.line)
    (hat : ∀ l, f.cause.At l f.column) : ∀ g ∈ [f], g.PointsInto ls :=
  List.forall_mem_singleton.2 (pointsInto_start h hat)

theorem pointsInto_ite {p : Prop} [Decidable p] {f : Finding} (h : Line.Numbered ls f.line)
    (hat : ∀ l, f.cause.At l f.column) : ∀ g ∈ if p then [] else [f], g.PointsInto ls := by
  split
  · exact nofun
  · exact pointsInto_singleton h hat

theorem pointsInto_length {l : List Char} (hitem : (l, n) ∈ ls.zipIdx 1) :
    ∀ f ∈ lengthFindings n l, f.PointsInto ls := by
  unfold lengthFindings
  split
  case isTrue hlong => exact List.forall_mem_singleton.2 ⟨l, hitem, rfl, hlong, rfl⟩
  case isFalse => exact nofun

theorem pointsInto_message (h : Line.Numbered ls n) (text : List Char) :
    ∀ f ∈ messageFindings n text, f.PointsInto ls := by
  unfold messageFindings
  cases declaredName? "message" text with
  | none => exact nofun
  | some name => exact pointsInto_ite h fun _ => rfl

theorem pointsInto_field (h : Line.Numbered ls n) (s : State) (text : List Char) :
    ∀ f ∈ s.fieldFindings n text, f.PointsInto ls := by
  unfold State.fieldFindings
  split
  · exact pointsInto_ite h fun _ => rfl
  · exact nofun

theorem State.Numbered.noteHeader (hs : s.Numbered ls) (h : Line.Numbered ls n)
    (text : List Char) : (s.noteHeader n text).Numbered ls := by
  refine ⟨fun m hm => ?_, fun i hi => ?_, hs.openEnum⟩
  · simp only [State.noteHeader] at hm
    split at hm
    · cases hm
      exact h
    · exact hs.packageLine m hm
  · simp only [State.noteHeader] at hi
    split at hi
    · rcases List.mem_append.1 hi with hi | hi
      · exact hs.imports i hi
      · obtain rfl := List.mem_singleton.1 hi
        exact h
    · exact hs.imports i hi

theorem placed_collect (hs : s.Numbered ls) (h : Line.Numbered ls n) (text : List Char) :
    Placed ls (State.collect n s text) := by
  unfold State.collect
  split
  case h_1 e a _ he _ =>
      refine ⟨⟨hs.packageLine, hs.imports, fun e' he' => ?_⟩, pointsInto_ite h fun _ => rfl⟩
      cases he'
      exact hs.openEnum e he
  case h_2 => exact ⟨hs, nofun⟩

theorem placed_readEnum (hs : s.Numbered ls) (h : Line.Numbered ls n) (text : List Char) :
    Placed ls (s.readEnum n text) := by
  unfold State.readEnum
  split
  case h_1 name _ =>
      have hopened :
          State.Numbered ls { s with openEnum := some { name, line := n, depth := s.depth } } :=
        ⟨hs.packageLine, hs.imports, fun e he => by cases he; exact h⟩
      obtain ⟨hstate, hfound⟩ := Pass.run_invariant (I := State.Numbered ls)
        (fun _ ht text _ => placed_collect ht h text) hopened
      exact ⟨hstate, List.forall_mem_append.2 ⟨pointsInto_ite h fun _ => rfl, hfound⟩⟩
  case h_2 => exact placed_collect hs h text

theorem placed_readService (hs : s.Numbered ls) (h : Line.Numbered ls n) (text : List Char) :
    Placed ls (s.readService n text) := by
  unfold State.readService
  dsimp only
  split
  · exact ⟨⟨hs.packageLine, hs.imports, hs.openEnum⟩, pointsInto_ite h fun _ => rfl⟩
  · split
    · exact ⟨hs, pointsInto_ite h fun _ => rfl⟩
    · exact ⟨hs, nofun⟩

theorem pointsInto_firstValue {e : OpenEnum} (h : Line.Numbered ls e.line) :
    ∀ f ∈ firstValueFindings e, f.PointsInto ls := by
  unfold firstValueFindings
  split
  · exact nofun
  · exact pointsInto_ite h fun _ => rfl

theorem placed_brace (hs : s.Numbered ls) (c : Char) : Placed ls (s.brace c) := by
  unfold State.brace
  dsimp only
  split
  case isTrue => exact ⟨⟨hs.packageLine, hs.imports, hs.openEnum⟩, nofun⟩
  case isFalse =>
      split
      case isFalse => exact ⟨hs, nofun⟩
      case isTrue =>
          split
          case h_2 => exact ⟨⟨hs.packageLine, hs.imports, hs.openEnum⟩, nofun⟩
          case h_1 e he =>
              split
              · exact ⟨⟨hs.packageLine, hs.imports, nofun⟩,
                  pointsInto_firstValue (hs.openEnum e he)⟩
              · exact ⟨⟨hs.packageLine, hs.imports, hs.openEnum⟩, nofun⟩

theorem placed_readBraces (hs : s.Numbered ls) (text : List Char) :
    Placed ls (s.readBraces text) := by
  unfold State.readBraces
  split
  · exact ⟨hs, nofun⟩
  · exact Pass.run_invariant (I := State.Numbered ls) (fun _ ht c _ => placed_brace ht c) hs

theorem placed_step (hs : s.Numbered ls) {item : List Char × Nat} (hitem : item ∈ ls.zipIdx 1) :
    Placed ls (step s item) := by
  obtain ⟨l, n⟩ := item
  have h : Line.Numbered ls n := ⟨l, hitem⟩
  unfold step
  dsimp only
  split
  case isTrue =>
      exact ⟨⟨hs.packageLine, hs.imports, hs.openEnum⟩, pointsInto_length hitem⟩
  case isFalse =>
      have hcomment : State.Numbered ls { s with inComment := blockAfter s.inComment (trim l) } :=
        ⟨hs.packageLine, hs.imports, hs.openEnum⟩
      obtain ⟨henum, hvalues⟩ := placed_readEnum (hcomment.noteHeader h (trim l)) h (trim l)
      obtain ⟨hservice, hwanting⟩ := placed_readService henum h (trim l)
      obtain ⟨hbraces, hfirst⟩ := placed_readBraces hservice (trim l)
      refine ⟨⟨hbraces.packageLine, hbraces.imports, hbraces.openEnum⟩, ?_⟩
      simp only [List.forall_mem_append]
      exact ⟨⟨⟨⟨⟨pointsInto_length hitem, pointsInto_message h _⟩, hvalues⟩,
        pointsInto_field h _ _⟩, hwanting⟩, hfirst⟩

theorem numbered_succ {n : Nat} (h : n < ls.length) : Line.Numbered ls (n + 1) := by
  refine ⟨ls[n], ?_⟩
  rw [Nat.add_comm]
  exact List.mk_add_mem_zipIdx_iff_getElem?.2 (List.getElem?_eq_getElem h)

theorem numbered_length (hne : ls ≠ []) : Line.Numbered ls ls.length := by
  have hpos := List.length_pos_iff.2 hne
  have hlast : Line.Numbered ls (ls.length - 1 + 1) := numbered_succ (by omega)
  rwa [Nat.sub_add_cancel hpos] at hlast

theorem pointsInto_newline (content : List Char) (hne : ls ≠ []) :
    ∀ f ∈ newlineFindings content ls.length, f.PointsInto ls := by
  unfold newlineFindings
  split
  · exact pointsInto_singleton (numbered_length hne) fun _ => rfl
  · exact nofun

theorem pointsInto_header (hs : s.Numbered ls) (hne : ls ≠ []) :
    ∀ f ∈ s.headerFindings, f.PointsInto ls := by
  have hfirst : Line.Numbered ls 1 := numbered_succ (List.length_pos_iff.2 hne)
  simp only [State.headerFindings, List.forall_mem_append]
  refine ⟨⟨?_, ?_⟩, ?_⟩
  · split
    · exact pointsInto_singleton hfirst fun _ => rfl
    · exact nofun
  · split
    · exact pointsInto_singleton hfirst fun _ => rfl
    · exact nofun
  · split
    case h_1 hpackage =>
        split
        · exact pointsInto_singleton (hs.packageLine _ hpackage) fun _ => rfl
        · exact nofun
    case h_2 => exact nofun

theorem pointsInto_imports (hs : s.Numbered ls) : ∀ f ∈ s.importFindings, f.PointsInto ls := by
  refine (Pass.run_invariant (I := fun _ => True) (fun _ _ i hi => ⟨trivial, ?_⟩) trivial).2
  split
  · exact pointsInto_singleton (hs.imports i hi) fun _ => rfl
  · exact nofun

theorem check_pointsInto {content : List Char} {found : List Finding} (hne : ls ≠ [])
    (h : check content ls = .ok found) : ∀ f ∈ found, f.PointsInto ls := by
  obtain ⟨hstate, hlines⟩ := Pass.run_invariant (I := State.Numbered ls)
    (fun _ hs _ hitem => placed_step hs hitem) (s := {}) ⟨nofun, nofun, nofun⟩
  unfold check at h
  dsimp only at h
  split at h
  case h_1 => cases h
  case h_2 =>
      obtain rfl := Except.ok.inj h
      simp only [List.forall_mem_append]
      exact ⟨⟨⟨pointsInto_newline content hne, hlines⟩, pointsInto_header hstate hne⟩,
        pointsInto_imports hstate⟩

end SchemaLint.Style
