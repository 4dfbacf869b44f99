import Mathlib.Data.List.Nodup
import SchemaLint.Json.Reader

/-! Fields by name. Setting fields one after another overrides the fields that have those names and
adds the others; an object that is read has no two fields of one name. -/

namespace SchemaLint.Json
open SchemaLint.Text
open scoped List

section
variable {α : Type}

def names (fields : List (α × Json)) : List α :=
  fields.map Prod.fst

@[simp] theorem names_nil : names ([] : List (α × Json)) = [] := rfl

@[simp] theorem names_cons (field : α × Json) (fields : List (α × Json)) :
    names (field :: fields) = field.1 :: names fields := rfl

theorem eq_of_perm_of_names {fields fields' : List (α × Json)} (h : fields.Perm fields')
    (hnames : names fields = names fields') (hn : (names fields).Nodup) : fields = fields' := by
  refine List.ext_getElem h.length_eq fun i hi hi' => ?_
  refine List.inj_on_of_nodup_map hn (List.getElem_mem hi) (h.mem_iff.2 (List.getElem_mem hi')) ?_
  have := List.getElem_of_eq hnames (i := i) (by simpa [names] using hi)
  simpa [names] using this

variable [BEq α]

def override (old new : List (α × Json)) : List (α × Json) :=
  new.foldl (fun fields field => put field.1 field.2 fields) old

variable [LawfulBEq α]

theorem names_put (name : α) (value : Json) (fields : List (α × Json)) :
    names (put name value fields) =
      if (names fields).contains name then names fields else names fields ++ [name] := by
  induction fields with
  | nil => rfl
  | cons field fields ih =>
      rw [put]
      by_cases h : field.1 = name
      · simp [h]
      · have hne : (name == field.1) = false := beq_eq_false_iff_ne.2 (Ne.symm h)
        simp only [beq_iff_eq, h, if_false, names_cons, ih, List.contains_cons, hne, Bool.false_or]
        split <;> rfl

theorem nodup_put (name : α) (value : Json) {fields : List (α × Json)}
    (h : (names fields).Nodup) : (names (put name value fields)).Nodup := by
  rw [names_put]
  split
  case isTrue => exact h
  case isFalse hn =>
      rw [List.contains_iff_mem] at hn
      rw [← List.concat_eq_append]
      exact h.concat hn

/-- Which names there are does not depend on the values of the old fields. -/
theorem names_override_congr {old old' : List (α × Json)} (h : names old = names old')
    (new : List (α × Json)) : names (override old new) = names (override old' new) := by
  induction new generalizing old old' with
  | nil => exact h
  | cons field new ih => exact ih (by rw [names_put, names_put, h])

theorem put_perm (name : α) (value : Json) {fields : List (α × Json)}
    (h : (names fields).Nodup) :
    (put name value fields).Perm ((name, value) :: fields.filter fun field => field.1 != name) := by
  induction fields with
  | nil => exact .refl _
  | cons field fields ih =>
      rw [names_cons, List.nodup_cons] at h
      rw [put]
      by_cases he : field.1 = name
      · have hkept : (fields.filter fun field => field.1 != name) = fields := by
          refine List.filter_eq_self.2 fun other hm => ?_
          rw [bne_iff_ne]
          rintro rfl
          exact h.1 (he ▸ List.mem_map_of_mem hm)
        simp [he, hkept]
      · rw [if_neg (by simpa using he), List.filter_cons_of_pos (by simpa using he)]
        exact ((ih h.2).cons field).trans (.swap ..)

/-- Each new field is there, and each old one that has another name. -/
theorem override_perm {old new : List (α × Json)} (hold : (names old).Nodup)
    (hnew : (names new).Nodup) :
    (override old new).Perm (new ++ old.filter fun field => !(names new).contains field.1) := by
  induction new generalizing old with
  | nil => simp [override]
  | cons field new ih =>
      rw [names_cons, List.nodup_cons] at hnew
      have hfield : (!(names new).contains field.1) = true := by simpa using hnew.1
      have hfilter : (((field.1, field.2) :: old.filter fun other => other.1 != field.1).filter
            fun other => !(names new).contains other.1) =
          field :: old.filter fun other => !(names (field :: new)).contains other.1 := by
        rw [List.filter_cons, if_pos hfield, List.filter_filter]
        refine congrArg _ (List.filter_congr fun other _ => ?_)
        rw [names_cons, List.contains_cons, Bool.not_or, Bool.and_comm]
        rfl
      -- The first new field counts as an old one for the others, which have other names.
      calc override old (field :: new)
        _ = override (put field.1 field.2 old) new := rfl
        _ ~ new ++ (put field.1 field.2 old).filter (fun other => !(names new).contains other.1) :=
          ih (nodup_put _ _ hold) hnew.2
        _ ~ new ++ field :: old.filter (fun other => !(names (field :: new)).contains other.1) := by
          rw [← hfilter]
          exact ((put_perm _ _ hold).filter _).append_left new
        _ ~ _ := List.perm_middle

/-- Only the new fields are left if each old one has the name of a new one. -/
theorem override_perm_of_subset {old new : List (α × Json)} (hold : (names old).Nodup)
    (hnew : (names new).Nodup) (hsub : names old ⊆ names new) : (override old new).Perm new := by
  have hnone : (old.filter fun field => !(names new).contains field.1) = [] := by
    refine List.filter_eq_nil_iff.2 fun field hm => ?_
    simpa using hsub (List.mem_map_of_mem hm)
  have := override_perm hold hnew
  rwa [hnone, List.append_nil] at this

/-- What old fields hold does not matter if each of them is overridden. -/
theorem override_congr {old old' new : List (α × Json)} (hold : (names old).Nodup)
    (hnew : (names new).Nodup) (hsub : names old ⊆ names new) (h : names old = names old') :
    override old new = override old' new := by
  have hperm := override_perm_of_subset hold hnew hsub
  have hperm' := override_perm_of_subset (h ▸ hold) hnew (h ▸ hsub)
  refine eq_of_perm_of_names (hperm.trans hperm'.symm) (names_override_congr h new) ?_
  exact ((hperm.map Prod.fst).nodup_iff).2 hnew

end

theorem bind_eq_ok {ε β γ : Type} {x : Except ε β} {f : β → Except ε γ} {c : γ}
    (h : (x >>= f) = .ok c) : ∃ b, x = .ok b ∧ f b = .ok c := by
  cases x with
  | error e => cases h
  | ok b => exact ⟨b, rfl, h⟩

theorem nodup_of_fields {fuel : Nat} {sofar read : List (List CodePoint × Json)}
    {s rest : List CodePoint} (hsofar : (names sofar).Nodup)
    (h : fields fuel sofar s = .ok (.object read, rest)) : (names read).Nodup := by
  induction fuel generalizing sofar s with
  | zero => cases h
  | succ fuel ih =>
      unfold fields at h
      split at h
      case h_1 =>
        obtain ⟨⟨name, tail⟩, -, h⟩ := bind_eq_ok h
        dsimp only at h
        split at h
        case h_1 =>
          obtain ⟨⟨content, tail⟩, -, h⟩ := bind_eq_ok h
          have hput := nodup_put name content hsofar
          dsimp only at h
          split at h
          · exact ih hput h
          · cases h
            exact hput
          · cases h
        case h_2 => cases h
      case h_2 => cases h

theorem items_ne_object {fuel : Nat} {sofar : List Json} {s rest : List CodePoint}
    {read : List (List CodePoint × Json)} :
    items fuel sofar s ≠ .ok (.object read, rest) := by
  intro h
  induction fuel generalizing sofar s with
  | zero => cases h
  | succ fuel ih =>
      unfold items at h
      obtain ⟨⟨item, tail⟩, -, h⟩ := bind_eq_ok h
      dsimp only at h
      split at h
      · exact ih h
      · cases h
      · cases h

theorem number_ne_object {negative : Bool} {s rest : List CodePoint}
    {read : List (List CodePoint × Json)} : number negative s ≠ .ok (.object read, rest) := by
  intro h
  unfold number at h
  dsimp only at h
  repeat' split at h
  all_goals cases h

theorem scalar_ne_object {s rest : List CodePoint} {read : List (List CodePoint × Json)} :
    scalar s ≠ .ok (.object read, rest) := by
  intro h
  unfold scalar at h
  split at h
  case h_1 found hfound =>
    obtain ⟨⟨text, value⟩, hword, hvalue⟩ := List.exists_of_findSome?_eq_some hfound
    obtain ⟨tail, -, hfound⟩ := Option.map_eq_some_iff.1 hvalue
    cases h
    cases hfound
    revert hword
    simp [words]
  case h_2 =>
    split at h
    case h_1 tail _ =>
      cases hstring : stringRest [] tail with
      | error why =>
          rw [hstring] at h
          cases h
      | ok found =>
          rw [hstring] at h
          cases h
    case h_2 => exact number_ne_object h
    case h_3 => exact number_ne_object h

theorem nodup_of_value {fuel : Nat} {s rest : List CodePoint}
    {read : List (List CodePoint × Json)} (h : value fuel s = .ok (.object read, rest)) :
    (names read).Nodup := by
  cases fuel with
  | zero => cases h
  | succ fuel =>
      unfold value at h
      split at h
      case h_1 =>
        split at h
        · cases h
        · exact absurd h items_ne_object
      case h_2 =>
        split at h
        · cases h
          exact List.nodup_nil
        · refine nodup_of_fields ?_ h
          exact List.nodup_nil
      case h_3 => exact absurd h scalar_ne_object

theorem nodup_of_parse {text : List CodePoint} {read : List (List CodePoint × Json)}
    (h : parse text = .ok (.object read)) : (names read).Nodup := by
  obtain ⟨⟨found, rest⟩, hvalue, h⟩ := bind_eq_ok h
  dsimp only at h
  split at h
  case isTrue =>
    cases h
    exact nodup_of_value hvalue
  case isFalse => cases h

end SchemaLint.Json
