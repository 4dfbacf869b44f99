import SchemaLint.Proofs.Document.Style

/-! The whole style pass over a well-formed source. Its findings on declarations and imports are
those that the tree asks for. -/

namespace SchemaLint.Document
open SchemaLint.Text SchemaLint.Style
open SchemaLint.Line (isComment)

theorem filter_lengthFindings (n : Nat) (raw : List Char) :
    (lengthFindings n raw).filter Finding.ofDeclaration = [] := by
  rw [lengthFindings]
  split <;> rfl

theorem filter_newlineFindings (content : List Char) (lineCount : Nat) :
    (newlineFindings content lineCount).filter Finding.ofDeclaration = [] := by
  rw [newlineFindings]
  split <;> rfl

theorem filter_headerFindings (s : Style.State) :
    s.headerFindings.filter Finding.ofDeclaration = [] := by
  rw [State.headerFindings, List.filter_append, List.filter_append, List.append_eq_nil_iff,
    List.append_eq_nil_iff]
  refine ⟨⟨?_, ?_⟩, ?_⟩
  · split <;> rfl
  · split <;> rfl
  · split
    · split <;> rfl
    · rfl

theorem ofDeclaration_unless {good : Bool} {cause : Cause}
    (h : declarationRules.contains cause.rule) (n : Nat) :
    ∀ f ∈ if good then [] else [({ line := n, cause } : Finding)], f.ofDeclaration := by
  intro f hf
  split at hf
  · cases hf
  · obtain rfl := List.mem_singleton.1 hf
    exact h

theorem Leaf.ofDeclaration (n : Nat) (noted : Bool) (l : Leaf) :
    ∀ f ∈ l.findings n noted, f.ofDeclaration := by
  cases l with
  | field g => exact ofDeclaration_unless rfl n
  | value v => exact ofDeclaration_unless rfl n
  | method g => exact ofDeclaration_unless rfl n
  | _ => nofun

theorem ofDeclaration_opener (n : Nat) (noted : Bool) (o : Schema.Opener) :
    ∀ f ∈ openerFindings n noted o, f.ofDeclaration := by
  cases o with
  | method g => exact ofDeclaration_unless rfl n
  | block keyword name =>
      cases keyword with
      | message => exact ofDeclaration_unless rfl n
      | enum => exact ofDeclaration_unless rfl n
      | service => exact ofDeclaration_unless rfl n
      | oneof => nofun

theorem ofDeclaration_closer (n : Nat) (values : List (Nat × Schema.Value)) (o : Schema.Opener) :
    ∀ f ∈ closerFindings n values o, f.ofDeclaration := by
  unfold closerFindings
  split
  · split
    · nofun
    · exact ofDeclaration_unless rfl n
  · nofun

/-- The pass goes from a state to another over lines, and these are its findings on declarations. -/
def Passes (s : Style.State) (n : Nat) (lines : List (List Char)) (t : Style.State)
    (found : List Finding) : Prop :=
  (Style.scan s (lines.zipIdx n)).1 = t ∧
    (Style.scan s (lines.zipIdx n)).2.filter Finding.ofDeclaration = found

theorem Passes.nil (s : Style.State) (n : Nat) : Passes s n [] s [] :=
  ⟨rfl, rfl⟩

theorem Passes.append {s t u : Style.State} {n : Nat} {lines more : List (List Char)}
    {found others : List Finding} (h : Passes s n lines t found)
    (k : Passes t (n + lines.length) more u others) :
    Passes s n (lines ++ more) u (found ++ others) := by
  obtain ⟨rfl, rfl⟩ := h
  obtain ⟨rfl, rfl⟩ := k
  simp only [Passes, Style.scan, List.zipIdx_append, Pass.run_append, List.filter_append, and_self]

theorem Passes.cons {s t u : Style.State} {n : Nat} {raw : List Char} {more : List (List Char)}
    {found others : List Finding} (h : Passes s n [raw] t found)
    (k : Passes t (n + 1) more u others) : Passes s n (raw :: more) u (found ++ others) :=
  h.append k

/-- A line with its findings, all of them on declarations but for its length. -/
theorem passes_line {s t : Style.State} {n : Nat} {raw : List Char} {found : List Finding}
    (h : Style.step s (raw, n) = (t, lengthFindings n raw ++ found))
    (hfound : ∀ f ∈ found, f.ofDeclaration) : Passes s n [raw] t found := by
  have hscan : Style.scan s ([raw].zipIdx n) = (t, lengthFindings n raw ++ found) := by
    rw [Style.scan_cons, h]
    simp [Style.scan]
  rw [Passes, hscan, List.filter_append, filter_lengthFindings, List.filter_eq_self.2 hfound]
  exact ⟨rfl, rfl⟩

theorem Leads.passes {place : Place} {depth : Int} {e : Option OpenEnum}
    {imports : List (Nat × Bool)} {s : Style.State} {n : Nat} {raw : List Char}
    {found : List Finding}
    (h : Leads place depth e imports (lengthFindings n raw ++ found) (Style.step s (raw, n)))
    (hfound : ∀ f ∈ found, f.ofDeclaration) :
    Passes s n [raw] (Style.step s (raw, n)).1 found :=
  passes_line (Prod.ext rfl h.found) hfound

/-- A blank line or a comment changes only whether a comment is before the next line. -/
theorem step_gap {s : Style.State} (hs : s.inComment = false) (f : Filler) (n : Nat) :
    Style.step s (f.raw, n) = ({ s with afterComment := f.isNote }, lengthFindings n f.raw) := by
  rw [Filler.isNote]
  rcases f.trimmed with h | h
  · rw [step_of_no_word hs h rfl rfl, h]
    simp [State.readBraces, Line.isComment, Line.opensBlock, Line.code, startsWith, after?]
  · obtain ⟨t, ht⟩ := startsWith_iff.1 h
    have hcomment : isComment (trim f.raw) = true := by
      rw [isComment, h]
      rfl
    have hquiet : s.readBraces (trim f.raw) = (s, []) := by
      rw [State.readBraces, hcomment]
      rfl
    rw [step_of_no_word hs rfl (by rw [← ht]; rfl) (by rw [← ht]; rfl), hquiet, hcomment, h,
      List.append_nil]

theorem passes_gap {s : Style.State} (hs : s.inComment = false) (gap : List Filler)
    (outer : List Structure.Block) (n : Nat) :
    Passes s n ((gapRows outer gap).map Row.raw)
      { s with afterComment := (gap.getLast?.map Filler.isNote).getD s.afterComment } [] := by
  induction gap generalizing s n with
  | nil => exact .nil s n
  | cons f gap ih =>
      have hline := passes_line ((step_gap hs f n).trans (by rw [List.append_nil]))
        (List.forall_mem_nil _)
      have hlast : ((f :: gap).getLast?.map Filler.isNote).getD s.afterComment =
          (gap.getLast?.map Filler.isNote).getD f.isNote := by
        rw [List.getLast?_cons]
        cases gap.getLast? <;> rfl
      rw [hlast]
      have hrest := ih (s := { s with afterComment := f.isNote }) hs (n + 1)
      exact hline.cons hrest

/-- After a gap a comment is before the next line if the gap ends with one. -/
theorem At.passes_gap {place : Place} {depth : Int} {e : Option OpenEnum}
    {imports : List (Nat × Bool)} {s : Style.State} (h : At place depth e imports s)
    (hs : s.afterComment = false) (gap : List Filler) (outer : List Structure.Block) (n : Nat) :
    Passes s n ((gapRows outer gap).map Row.raw) { s with afterComment := noted gap } [] := by
  have hnoted : (gap.getLast?.map Filler.isNote).getD s.afterComment = noted gap := by
    rw [hs, noted]
    cases gap.getLast? <;> rfl
  rw [← hnoted]
  exact Document.passes_gap h.inComment gap outer n

theorem At.passes_after_gap {place : Place} {depth : Int} {e : Option OpenEnum}
    {imports : List (Nat × Bool)} {s t : Style.State} (h : At place depth e imports s)
    (hs : s.afterComment = false) {gap : List Filler} {n : Nat} {rows : List Row}
    {found : List Finding} (outer : List Structure.Block)
    (k : Passes { s with afterComment := noted gap } (n + gap.length) (rows.map Row.raw) t found) :
    Passes s n ((gapRows outer gap ++ rows).map Row.raw) t found := by
  have hlength : ((gapRows outer gap).map Row.raw).length = gap.length := by
    rw [List.length_map, length_gapRows]
  rw [← hlength] at k
  rw [List.map_append, ← List.nil_append found]
  exact (h.passes_gap hs gap outer n).append k

theorem Body.imports_eq_nil {place : Place} (b : Body place) (h : place ≠ .top) (n : Nat) :
    b.imports n = [] := by
  induction b generalizing n with
  | done gap => rfl
  | leaf gap l holds line rest ih =>
      have hnone : l.import? = none := by
        cases holds with
        | header g => exact absurd rfl h
        | _ => rfl
      rw [imports, hnone, ih h]
      rfl
  | block gap o opens first body last rest ihb ihr => exact ihr h _

theorem Opens.ne_top {place inner : Place} {o : Schema.Opener} (h : Opens place o inner) :
    inner ≠ .top := by
  cases h <;> nofun

/-- The lines of a body lead through its place, its values go to the open enum and its imports to
those before. -/
theorem Body.passes {place : Place} (b : Body place) (readable : b.Readable)
    (outer : List Structure.Block) (n : Nat) {depth : Int} {e : Option OpenEnum}
    {imports : List (Nat × Bool)} {s : Style.State} (h : At place depth e imports s)
    (hs : s.afterComment = false) :
    ∃ t, At place depth (e.map (collected · (b.values n))) (imports ++ b.imports n) t ∧
      Passes s n ((b.rows outer n).map Row.raw) t (b.findings n) := by
  induction b generalizing n outer depth e imports s with
  | done gap =>
      refine ⟨_, ?_, h.passes_gap hs gap outer n⟩
      rw [values, map_collected_nil, Body.imports, List.append_nil]
      exact h.afterComment (noted gap)
  | leaf gap l holds line rest ih =>
      have hleaf := (h.afterComment (noted gap)).step_leaf holds line (n + gap.length) readable.1
      obtain ⟨t, ht, hrest⟩ := ih readable.2 outer (n + gap.length + 1) hleaf.stands hleaf.afterCode
      refine ⟨t, ?_, ?_⟩
      · rw [values, map_collected_append, Body.imports, ← List.append_assoc]
        exact ht
      · exact h.passes_after_gap hs outer ((hleaf.passes (l.ofDeclaration _ _)).cons hrest)
  | block gap o opens first body last rest ihb ihr =>
      -- a place that holds blocks is no enum, so only the enum that opens here collects inside
      obtain rfl := h.eq_none opens.isEnum_eq_false
      have hopener := (h.afterComment (noted gap)).step_opener opens first (n + gap.length)
      obtain ⟨t, ht, hbody⟩ := ihb readable.1 (opened (n + gap.length) o :: outer)
        (n + gap.length + 1) hopener.stands hopener.afterCode
      rw [body.imports_eq_nil opens.ne_top, List.append_nil] at ht
      have hclose := ht.step_close opens h.fits last (n + gap.length + 1 + body.height)
      obtain ⟨u, hu, hrest⟩ := ihr readable.2 outer (n + gap.length + 1 + body.height + 1)
        hclose.stands hclose.afterCode
      refine ⟨u, hu, h.passes_after_gap hs outer ?_⟩
      have hlines := (hclose.passes (ofDeclaration_closer _ _ o)).cons hrest
      refine (hopener.passes (ofDeclaration_opener _ _ o)).cons ?_
      rw [List.map_append]
      refine hbody.append ?_
      rw [List.length_map, body.length_rows]
      exact hlines

theorem importFindings_eq (s : Style.State) :
    s.importFindings = lateImports (s.imports.map fun i => (i.line, i.isPublic)) := by
  have go : ∀ (imports : List Import) (seenOther : Bool),
      (Pass.run (fun seenOther (i : Import) =>
        (seenOther || !i.isPublic,
          if i.isPublic && seenOther then [({ line := i.line, cause := .lateImport } : Finding)]
          else [])) seenOther imports).2 =
        if seenOther then
          ((imports.filter Import.isPublic).map fun i => { line := i.line, cause := .lateImport })
        else lateImports (imports.map fun i => (i.line, i.isPublic)) := by
    intro imports
    induction imports with
    | nil => intro seenOther; cases seenOther <;> rfl
    | cons i imports ih =>
        intro seenOther
        rw [Pass.run_cons, ih]
        cases seenOther with
        | true => cases hi : i.isPublic <;> simp [hi]
        | false =>
            cases hi : i.isPublic with
            | true => simp [lateImports, hi]
            | false => simp [lateImports, hi, List.filter_map, Function.comp_def]
  exact go s.imports false

theorem filter_lateImports (imports : List (Nat × Bool)) :
    (lateImports imports).filter Finding.ofDeclaration = lateImports imports := by
  apply List.filter_eq_self.2
  intro f hf
  obtain ⟨i, -, rfl⟩ := List.mem_map.1 hf
  rfl

/-- A well-formed source with readable values has exactly the findings on declarations and imports
that its tree asks for. -/
theorem style_findings (d : Document) (content : List Char) (readable : Body.Readable d) :
    ∃ found, Style.check content d.lines = .ok found ∧
      found.filter Finding.ofDeclaration = d.findings := by
  have hstart : At .top 0 none [] ({} : Style.State) :=
    ⟨rfl, rfl, rfl, rfl, rfl, rfl, rfl, rfl⟩
  obtain ⟨t, ht, hstate, hfound⟩ := Body.passes d readable [] 1 hstart rfl
  have himports : t.importFindings = lateImports (Body.imports 1 d) := by
    rw [importFindings_eq, ht.imports, List.nil_append]
  have hcheck : Style.check content d.lines =
      .ok (newlineFindings content d.lines.length ++ (Style.scan {} (d.lines.zipIdx 1)).2 ++
        t.headerFindings ++ t.importFindings) := by
    have hscan : Style.scan {} (d.lines.zipIdx 1) = (t, (Style.scan {} (d.lines.zipIdx 1)).2) :=
      Prod.ext hstate rfl
    rw [Style.check, hscan]
    simp only [ht.overlong]
  refine ⟨_, hcheck, ?_⟩
  simp only [List.filter_append, filter_newlineFindings, filter_headerFindings, himports,
    filter_lateImports, List.nil_append, List.append_nil]
  exact congrArg (· ++ _) hfound

def carelessUser : Body .message :=
  .leaf [] (.field { sampleField with name := ⟨"Name".toList, by decide, by decide⟩ }) (.field _)
    ⟨"  string Name = 1;".toList, by decide⟩ (.done [])

def carelessRole : Body .enum :=
  .leaf []
    (.value ⟨⟨"admin".toList, by decide, by decide⟩, false, sampleField.number⟩)
    (.value _) ⟨"  admin = 1;".toList, by decide⟩ (.done [])

def userType : Schema.Operand :=
  ⟨false, ⟨⟨"user".toList, by decide, by decide⟩, []⟩⟩

def carelessUsers : Body .service :=
  .leaf [] (.method ⟨⟨"Find".toList, by decide, by decide⟩, userType, userType⟩) (.method _)
    ⟨"  rpc Find(user) returns (user);".toList, by decide⟩ (.done [])

def careless : Document :=
  .leaf [] (.header (.importDecl ⟨"a".toList, by decide, by decide, by decide, by decide⟩))
    (.header _) ⟨"import \"a\";".toList, by decide⟩
  (.leaf [] (.header (.publicImport ⟨"b".toList, by decide, by decide, by decide, by decide⟩))
    (.header _) ⟨"import public \"b\";".toList, by decide⟩
  (.block [] (.block .message ⟨"user".toList, by decide, by decide⟩) (.message _)
    ⟨"message user \x7b".toList, by decide⟩ carelessUser closing
  (.block [] (.block .enum ⟨"role".toList, by decide, by decide⟩) (.enum _)
    ⟨"enum role \x7b".toList, by decide⟩ carelessRole closing
  (.block [] (.block .service ⟨"Users".toList, by decide, by decide⟩) (.service _)
    ⟨"service Users \x7b".toList, by decide⟩ carelessUsers closing
    (.done [])))))

theorem style_findings_careless :
    Body.Readable careless ∧ ∃ found, Style.check [] careless.lines = .ok found ∧
      found.filter Finding.ofDeclaration = [
        ⟨3, 1, .messageName "user".toList⟩, ⟨4, 1, .fieldName "Name".toList⟩,
        ⟨6, 1, .enumName "role".toList⟩, ⟨7, 1, .valueName "admin".toList⟩,
        ⟨6, 1, .firstValue "role".toList⟩, ⟨9, 1, .serviceUncommented⟩,
        ⟨10, 1, .rpcUncommented⟩, ⟨2, 1, .lateImport⟩] := by
  have readable : Body.Readable careless := by
    simp [careless, carelessUser, carelessRole, carelessUsers, sampleField, Schema.sampleField,
      Body.Readable, Leaf.value?, Numeral.maxDigits]
  obtain ⟨found, hcheck, hfound⟩ := style_findings careless [] readable
  exact ⟨readable, found, hcheck, hfound.trans (by decide)⟩

end SchemaLint.Document
