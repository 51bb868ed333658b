import Polyglot.Dialect.Decls
import Polyglot.Proofs.Basic

/-!
# Parameters of a union

The parameters of a union are types. Those that have a name bind it; a function type has none, and a
union with such a parameter cannot be asked for its parameters at all.

Results:
1. `paramNames_eq_ok`, `paramNames_eq_error`: what a union answers.
2. `tagParams_eq_ok`, `tagType_eq_ok`: the parameters of a tag, and its name with them.
-/

namespace Polyglot

namespace Union

/-- The names that the parameters have. -/
def boundNames (union : Union) : List String :=
  union.params.filterMap Ty.name?

/-- The names that the fields of a tag mention. -/
def boundIn (union : Union) (tag : Tag) : List String :=
  union.boundNames.filter fun name => name ∈ Ty.parameters (tag.fields.map Binding.type)

/-- Every parameter has a name. -/
def Named (union : Union) : Prop :=
  ∀ parts, .func parts ∉ union.params

variable {union : Union} {names : List String}

theorem paramNames_eq_ok (h : union.Named) : union.paramNames = .ok union.boundNames := by
  unfold Named at h
  unfold paramNames boundNames
  generalize union.params = params at h ⊢
  induction params with
  | nil => rfl
  | cons param params ih =>
    have hrest := ih fun parts hparts => h parts (List.mem_cons_of_mem param hparts)
    rw [List.mapM_cons, hrest]
    cases param with
    | named name args => rfl
    | var name => rfl
    | func parts => exact absurd List.mem_cons_self (h parts)

/-- The first parameter without a name stops the search. -/
theorem paramNames_eq_error {parts : List Ty} (h : .func parts ∈ union.params) :
    union.paramNames = .error ⟨"FunctionType", "name"⟩ := by
  unfold paramNames
  generalize union.params = params at h ⊢
  induction params with
  | nil => cases h
  | cons param params ih =>
    rw [List.mapM_cons]
    cases param with
    | func _ => rfl
    | named name args =>
      rw [ih (List.mem_of_ne_of_mem Ty.noConfusion h)]
      rfl
    | var name =>
      rw [ih (List.mem_of_ne_of_mem Ty.noConfusion h)]
      rfl

/-- A union whose parameters can be listed has names for all of them. -/
theorem named_of_paramNames (h : union.paramNames = .ok names) : union.Named := by
  intro parts hparts
  rw [paramNames_eq_error hparts] at h
  cases h

theorem tagParams_eq_ok (h : union.Named) (tag : Tag) :
    union.tagParams tag = .ok (union.boundIn tag) := by
  rw [tagParams, paramNames_eq_ok h]
  rfl

/-! ## Parameters that are variables -/

theorem boundNames_of_vars (h : union.params = names.map Ty.var) : union.boundNames = names := by
  rw [boundNames, h, List.filterMap_map]
  exact List.filterMap_some

theorem named_of_vars (h : union.params = names.map Ty.var) : union.Named := by
  intro parts hparts
  rw [h] at hparts
  obtain ⟨name, _, hname⟩ := List.mem_map.mp hparts
  cases hname

end Union

/-! ## Tags with their parameters -/

namespace Script

variable {union : Union} {tag : Tag}

/-- The name of a tag with the parameters that its fields mention. -/
def tagTypeText (union : Union) (tag : Tag) : String :=
  tag.name ++ angled (union.boundIn tag)

theorem tagParams_eq_ok (h : union.Named) (tag : Tag) :
    tagParams union tag = .ok (union.boundIn tag) := by
  rw [tagParams, Union.tagParams_eq_ok h]
  rfl

theorem tagType_eq_ok (h : union.Named) (tag : Tag) :
    tagType union tag = .ok (tagTypeText union tag) := by
  rw [tagType, tagParams_eq_ok h]
  rfl

end Script

end Polyglot
