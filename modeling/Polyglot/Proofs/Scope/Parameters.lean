import Polyglot.Proofs.Decl.Proper
import Polyglot.Proofs.Scope.FirstIssue

/-!
# Type parameters

The check of a union looks its variables up among the union's parameters, and a list of type
parameters is collected from types without any check. The two go through the types on ways of their
own and leave out different builtin names. Here both are compared with the places at which a
variable stands.

Results:
1. `parameters_listed`: the collected list has every variable once, in the order of first places.
2. `mem_boundIn_iff`: in a union without an issue the parameters of a tag are the variables of its
   fields.
-/

namespace Polyglot

namespace Ty

/-! ## Places of variables -/

/-- A variable stands at a place of the types: the number of a type, and then the path into it. -/
inductive OccursAt (types : List Ty) (name : String) : List Nat → Prop
  | mk {i : Nat} {ty : Ty} {path : List Nat} : types[i]? = some ty →
      ty.at? path = some (.var name) → OccursAt types name (i :: path)

/-- The first place of one variable comes before all places of another. -/
def Precedes (types : List Ty) (name later : String) : Prop :=
  ∃ place, OccursAt types name place ∧
    ∀ place', OccursAt types later place' → NoLater place place'

/-- The variables of the types that are no builtin, each once, in the order of first appearance. -/
structure Listed (types : List Ty) (names : List String) : Prop where
  nodup : names.Nodup
  mem_iff (name : String) :
    name ∈ names ↔ isBuiltin name = false ∧ ∃ place, OccursAt types name place
  ordered : names.Pairwise (Precedes types)

theorem findsFirst_varsAll (types : List Ty) (p : String → Bool) :
    FindsFirst (fun place name => OccursAt types name place ∧ p name = true)
      ((varsAll types).find? p) := by
  rw [varsAll_eq_flatMap, List.find?_flatMap]
  refine (findsFirst_findSome? fun ty _ => findsFirst_collect collects_vars p ty).congr
    fun place name => ?_
  constructor
  · rintro ⟨i, ty, path, hty, rfl, part, hpart, hvar, hp⟩
    rw [var?_eq_some_iff.mp hvar] at hpart
    exact ⟨.mk hty hpart, hp⟩
  · rintro ⟨⟨hty, hpart⟩, hp⟩
    exact ⟨_, _, _, hty, rfl, _, hpart, rfl, hp⟩

theorem mem_varsAll_iff {types : List Ty} {name : String} :
    name ∈ varsAll types ↔ ∃ place, OccursAt types name place := by
  have hfirst := findsFirst_varsAll types (· == name)
  cases hfound : (varsAll types).find? (· == name) with
  | none =>
    rw [hfound] at hfirst
    rw [List.find?_eq_none] at hfound
    constructor
    · intro hmem
      exact absurd (beq_self_eq_true name) (hfound name hmem)
    · rintro ⟨place, hplace⟩
      exact absurd ⟨hplace, beq_self_eq_true name⟩ (hfirst place name)
  | some found =>
    rw [hfound] at hfirst
    obtain ⟨place, ⟨hplace, _⟩, _⟩ := hfirst
    have heq : (found == name) = true := List.find?_some (p := (· == name)) hfound
    obtain rfl := eq_of_beq heq
    exact ⟨fun _ => ⟨place, hplace⟩, fun _ => List.mem_of_find?_eq_some hfound⟩

/-! ## Collected lists -/

theorem mem_parameters_iff {types : List Ty} {name : String} :
    name ∈ parameters types ↔ isBuiltin name = false ∧ ∃ place, OccursAt types name place := by
  rw [parameters, List.mem_eraseDups, List.mem_filter, mem_varsAll_iff, Bool.not_eq_true', and_comm]

/-- The type parameters of types are the variables that are no builtin, each once, in the order of
first appearance. -/
theorem parameters_listed (types : List Ty) : Listed types (parameters types) := by
  have hpairs : (parameters types).Pairwise _ := List.pairwise_eraseDups _
  refine ⟨hpairs.imp fun h => h.1, fun name => mem_parameters_iff, ?_⟩
  refine hpairs.imp_of_mem fun {a b} _ hb h => ?_
  have hfirst := findsFirst_varsAll types fun name =>
    decide ((!isBuiltin name) = true ∧ (name == a || name == b) = true)
  rw [← List.find?_filter, h.2] at hfirst
  obtain ⟨place, ⟨hplace, _⟩, hleast⟩ := hfirst
  refine ⟨place, hplace, fun place' hplace' => hleast place' b ⟨hplace', ?_⟩⟩
  simp [(mem_parameters_iff.mp hb).1]

/-! ## Variables of types that were read -/

theorem Proper.children {nested : Bool} {ty part : Ty} (h : ty.Proper nested)
    (hpart : part ∈ ty.children) : ∃ nested', part.Proper nested' := by
  cases h with
  | var _ _ _ => cases hpart
  | constant _ _ => cases hpart
  | applied _ _ hargs => exact ⟨true, hargs part hpart⟩
  | func _ hparts => exact ⟨false, hparts part hpart⟩

/-- A variable of a type that was read starts with a small letter. -/
theorem Proper.not_upper {nested : Bool} {ty : Ty} (h : ty.Proper nested) {path : List Nat}
    {name : String} (hvar : ty.at? path = some (.var name)) : isUpperName name = false := by
  induction path generalizing ty nested with
  | nil =>
    cases hvar
    cases h with
    | var _ hlower _ => exact hlower
  | cons i path ih =>
    obtain ⟨part, hpart, hvar⟩ := Option.bind_eq_some_iff.mp hvar
    obtain ⟨_, hproper⟩ := h.children (List.mem_of_getElem? hpart)
    exact ih hproper hvar

end Ty

/-! ## Parameters of tags -/

namespace Union

variable {union : Union} {tag : Tag}

/-- If all variables of the fields are bound, then the parameters of a tag are its variables. The
check lets one builtin name pass that is not left out of the parameters, but no variable has it. -/
theorem mem_boundIn_iff (h : tag.Proper)
    (hbound : ∀ field ∈ tag.fields, Scope.VarsBound union field.type) {name : String} :
    name ∈ union.boundIn tag ↔ Ty.isBuiltin name = false ∧
      ∃ place, Ty.OccursAt (tag.fields.map Binding.type) name place := by
  rw [boundIn, List.mem_filter, decide_eq_true_eq, Ty.mem_parameters_iff]
  refine and_iff_right_of_imp ?_
  rintro ⟨hbuiltin, _, ⟨hty, hvar⟩⟩
  obtain ⟨field, hfield, rfl⟩ := List.mem_map.mp (List.mem_of_getElem? hty)
  refine (hbound field hfield _ name hvar).resolve_left fun hmem => ?_
  have hlower := (h.fields field hfield).type.not_upper hvar
  have hsplit : name ∈ ["any", "boolean", "number", "string", "void"] ++ ["List"] := hmem
  have hlast := (List.mem_append.mp hsplit).resolve_left (of_decide_eq_false hbuiltin)
  obtain rfl := List.mem_singleton.mp hlast
  exact absurd hlower (by decide)

end Union

end Polyglot
