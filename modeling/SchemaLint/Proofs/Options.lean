import SchemaLint.Options
import SchemaLint.Proofs.Json.Fields

/-! Options of a file that sets both options which have defaults. They are the settings of the file,
whatever the environment gives for the two, with one exception: the limit of the environment is read
ahead of the file, for the default, so a limit that is no integer fails even if the file overrides
it. -/

namespace SchemaLint
open SchemaLint.Text

def Environment.path (env : Environment) : List Char :=
  env.optionsPath.getD Options.defaultPath

/-- Why the limit that an environment gives is no integer. -/
def Environment.limitFault? (env : Environment) : Option Numeral.Fault :=
  match env.maxContentBytes with
  | none => none
  | some text => match Numeral.parse (ofChars text) with
    | .ok _ => none
    | .error why => some why

namespace Options
open SchemaLint.Json

def defaulted : List (List CodePoint) :=
  [ofChars "max_content_bytes".toList, ofChars "cors_allow_origins".toList]

def defaults (limit origins : Json) : List (List CodePoint × Json) :=
  [(ofChars "max_content_bytes".toList, limit), (ofChars "cors_allow_origins".toList, origins)]

def ofFields (fields : List (List CodePoint × Json)) : Options :=
  ⟨fields.map (Prod.map Name.ofText id)⟩

/-- The options of a file that overrides both defaults, whatever these are. -/
def ofFile (fields : List (List CodePoint × Json)) : Options :=
  ofFields (override (defaults .null .null) fields)

/-- The file at the path holds an object with these fields, both options that have defaults among
them. -/
structure FileSets (readFile : List Char → Option (List Char)) (path : List Char)
    (fields : List (List CodePoint × Json)) : Prop where
  object : ∃ text, readFile path = some text ∧ parse (ofChars text) = .ok (.object fields)
  both : defaulted ⊆ names fields

@[simp] theorem names_defaults (limit origins : Json) :
    names (defaults limit origins) = defaulted := rfl

theorem nodup_defaults (limit origins : Json) : (names (defaults limit origins)).Nodup := by
  rw [names_defaults]
  decide

theorem put_ofText (name : List CodePoint) (value : Json)
    (fields : List (List CodePoint × Json)) :
    put (Name.ofText name) value (fields.map (Prod.map Name.ofText id)) =
      (put name value fields).map (Prod.map Name.ofText id) := by
  induction fields with
  | nil => rfl
  | cons field fields ih =>
      have hname : (Name.ofText field.1 == Name.ofText name) = (field.1 == name) := by
        change decide (Identity.text field.1 = Identity.text name) = _
        rw [Bool.eq_iff_iff, decide_eq_true_iff, beq_iff_eq, Identity.text.injEq]
      simp only [put, List.map_cons, Prod.map, id_eq, hname]
      split
      · rfl
      · rw [ih]
        rfl

theorem update_ofFields (old new : List (List CodePoint × Json)) :
    (ofFields old).update (.object new) = .ok (ofFields (override old new)) := by
  refine congrArg Except.ok (List.foldl_map.trans ?_)
  induction new generalizing old with
  | nil => rfl
  | cons field new ih =>
      have hset : (ofFields old).set (Name.ofText field.1) field.2 =
          ofFields (put field.1 field.2 old) := congrArg Options.mk (put_ofText ..)
      exact (congrArg (List.foldl _ · new) hset).trans (ih _)

variable {env : Environment} {why : Numeral.Fault}

/-- An environment gives two defaults, unless its limit is no integer. -/
theorem exists_ofEnvironment (env : Environment) :
    ∃ limit origins, ofEnvironment env = match env.limitFault? with
      | some why => .error (.limit why)
      | none => .ok (ofFields (defaults limit origins)) := by
  unfold Environment.limitFault? ofEnvironment
  cases env.maxContentBytes with
  | none => exact ⟨_, _, rfl⟩
  | some text =>
      dsimp only
      cases Numeral.parse (ofChars text) with
      | ok n => exact ⟨_, _, rfl⟩
      | error why => exact ⟨.null, .null, rfl⟩

variable {readFile : List Char → Option (List Char)} {fields : List (List CodePoint × Json)}

theorem load_of_fault (h : env.limitFault? = some why) :
    load env readFile = .error (.limit why) := by
  obtain ⟨limit, origins, henv⟩ := exists_ofEnvironment env
  rw [h] at henv
  rw [load, henv]
  rfl

theorem FileSets.nodup {path : List Char} (h : FileSets readFile path fields) :
    (names fields).Nodup := by
  obtain ⟨text, -, hparse⟩ := h.object
  exact nodup_of_parse hparse

theorem FileSets.override_defaults {path : List Char} (h : FileSets readFile path fields)
    (limit origins : Json) :
    ofFields (override (defaults limit origins) fields) = ofFile fields :=
  congrArg ofFields (override_congr (nodup_defaults ..) h.nodup h.both rfl)

theorem load_of_none (h : env.limitFault? = none) (hfile : FileSets readFile env.path fields) :
    load env readFile = .ok (ofFile fields) := by
  obtain ⟨limit, origins, henv⟩ := exists_ofEnvironment env
  rw [h] at henv
  obtain ⟨text, hread, hparse⟩ := hfile.object
  rw [← hfile.override_defaults limit origins, ← update_ofFields]
  unfold Environment.path at hread
  simp only [load, henv, bind, Except.bind, hread, hparse]

/-- The options of a file that overrides both defaults are its fields. -/
theorem FileSets.ofFile_perm {path : List Char} (h : FileSets readFile path fields) :
    (ofFile fields).entries.Perm (ofFields fields).entries :=
  (override_perm_of_subset (nodup_defaults ..) h.nodup h.both).map _

def sampleFile : List Char :=
  "\x7b\"cors_allow_origins\": [\"https://a.example\"], \"log\": true,".toList ++
    "\"max_content_bytes\": 4096\x7d".toList

theorem exists_fileSets {text : List Char}
    (h : (match parse (ofChars text) with
      | .ok (.object fields) => decide (defaulted ⊆ names fields)
      | _ => false) = true) (path : List Char) :
    ∃ fields, FileSets (fun _ => some text) path fields := by
  split at h
  case h_1 fields hparse => exact ⟨fields, ⟨text, rfl, hparse⟩, of_decide_eq_true h⟩
  case h_2 => cases h

theorem sample_sets (path : List Char) :
    ∃ fields, FileSets (fun _ => some sampleFile) path fields :=
  exists_fileSets (by decide +kernel) path

/-- Two environments that name one file, which sets both options, load the same exactly if they give
limits with the same fault, or limits without one. Loading fails by such a fault only, and what is
loaded are the fields of the file. -/
theorem load_eq_load_iff {env₁ env₂ : Environment} (hpath : env₁.path = env₂.path)
    (hfile : FileSets readFile env₁.path fields) :
    (load env₁ readFile = load env₂ readFile ↔ env₁.limitFault? = env₂.limitFault?) ∧
      (∀ fault, load env₁ readFile = .error fault ↔
        ∃ why, env₁.limitFault? = some why ∧ fault = .limit why) ∧
      ∀ o, load env₁ readFile = .ok o → o.entries.Perm (ofFields fields).entries := by
  have hfile₂ : FileSets readFile env₂.path fields := hpath ▸ hfile
  cases h₁ : env₁.limitFault? with
  | none =>
      rw [load_of_none h₁ hfile]
      refine ⟨?_, fun fault => ?_, ?_⟩
      · cases h₂ : env₂.limitFault? with
        | none => exact iff_of_true (load_of_none h₂ hfile₂).symm rfl
        | some why =>
            rw [load_of_fault h₂]
            exact iff_of_false nofun nofun
      · exact iff_of_false nofun nofun
      · intro o ho
        cases ho
        exact hfile.ofFile_perm
  | some why =>
      rw [load_of_fault h₁]
      refine ⟨?_, fun fault => ?_, nofun⟩
      · cases h₂ : env₂.limitFault? with
        | none =>
            rw [load_of_none h₂ hfile₂]
            exact iff_of_false nofun nofun
        | some why' =>
            rw [load_of_fault h₂, Except.error.injEq, Fault.limit.injEq, Option.some.injEq]
      · rw [Except.error.injEq]
        constructor
        · rintro rfl
          exact ⟨why, rfl, rfl⟩
        · rintro ⟨why', he, rfl⟩
          rw [Option.some.inj he]

/-- A limit and a path that are spelled out, against origins. -/
theorem load_eq_load_spelled :
    let env₁ : Environment :=
      { maxContentBytes := some " 2_048 ".toList, optionsPath := some defaultPath }
    let env₂ : Environment := { allowedOrigins := some "https://b.example, ".toList }
    env₁.path = env₂.path ∧ ∃ fields, FileSets (fun _ => some sampleFile) env₁.path fields ∧
      load env₁ (fun _ => some sampleFile) = load env₂ fun _ => some sampleFile := by
  intro env₁ env₂
  have hpath : env₁.path = env₂.path := rfl
  obtain ⟨fields, hfile⟩ := sample_sets env₁.path
  exact ⟨hpath, fields, hfile, (load_eq_load_iff hpath hfile).1.2 (by decide)⟩

/-- A limit that is no integer fails where the file overrides it. -/
theorem load_differs_overridden :
    ¬ ∀ (readFile : List Char → Option (List Char)) (env₁ env₂ : Environment)
      (fields : List (List CodePoint × Json)), env₁.path = env₂.path →
      FileSets readFile env₁.path fields → load env₁ readFile = load env₂ readFile := by
  intro h
  obtain ⟨fields, hfile⟩ := sample_sets defaultPath
  have hsame := h _ { maxContentBytes := some "4 KiB".toList } {} fields rfl hfile
  have hfault : Environment.limitFault? { maxContentBytes := some "4 KiB".toList } =
      some (.malformed (ofChars "4 KiB".toList)) := by decide
  rw [load_of_fault hfault, load_of_none rfl hfile] at hsame
  cases hsame

end Options

end SchemaLint
