import Polyglot.Dialect.Decls
import Polyglot.Proofs.Ty.Surface

/-!
# Normal forms are written alike

No dialect can tell a type from its normal form: a builtin is written by its name whether it is a
concrete type or a variable, it is never a type parameter, and a list of functions stays one. So a
declaration and its normal form have the same text in every dialect (`decl_normal`).
-/

namespace Polyglot

/-! ## Types -/

namespace Ty

theorem isFunc_normal (nested : Bool) (ty : Ty) : (ty.normal nested).isFunc = ty.isFunc := by
  cases ty with
  | named name args =>
    cases args with
    | nil =>
      rw [normal]
      split <;> rfl
    | cons arg args => rfl
  | var name => rfl
  | func parts => rfl

mutual

/-- The variables that are no builtins. -/
theorem vars_normal (nested : Bool) : ∀ ty : Ty,
    (ty.normal nested).vars.filter (fun name => !isBuiltin name) =
      ty.vars.filter fun name => !isBuiltin name
  | .named name [] => by
      rw [normal]
      split
      · next h =>
        rw [Bool.and_eq_true] at h
        simp [vars, varsAll, h.2]
      · rfl
  | .named name (arg :: args) => by
      rw [normal, vars, vars]
      exact varsAll_normal true (arg :: args)
  | .var name => rfl
  | .func parts => by
      rw [normal, vars, vars]
      exact varsAll_normal false parts

theorem varsAll_normal (nested : Bool) : ∀ types : List Ty,
    (varsAll (normalAll nested types)).filter (fun name => !isBuiltin name) =
      (varsAll types).filter fun name => !isBuiltin name
  | [] => rfl
  | ty :: rest => by
      rw [normalAll, varsAll, varsAll, List.filter_append, List.filter_append,
        vars_normal nested ty, varsAll_normal nested rest]

end

theorem parameters_normal (types : List Ty) :
    parameters (types.map (normal false)) = parameters types := by
  rw [parameters, parameters, ← normalAll_eq_map, varsAll_normal]

end Ty

namespace Script

open Ty

theorem appliedType_normal (name : String) (nested : Bool) (args : List Ty) (texts : List String) :
    appliedType name (normalAll nested args) texts = appliedType name args texts := by
  match args, texts with
  | [], _ => rfl
  | [arg], [text] => simp only [normalAll, appliedType, isFunc_normal]
  | [arg], [] => rfl
  | [arg], _ :: _ :: _ => rfl
  | _ :: _ :: _, _ => rfl

mutual

theorem typeText_normal (nested : Bool) : ∀ ty : Ty,
    Script.typeText (ty.normal nested) = Script.typeText ty
  | .named name [] => by
      rw [normal]
      split <;> rfl
  | .named name (arg :: args) => by
      rw [normal, typeText, typeText, typeTexts_normal true (arg :: args)]
      simp only [appliedType_normal]
  | .var name => rfl
  | .func parts => by
      rw [normal, typeText, typeText, typeTexts_normal false parts]

theorem typeTexts_normal (nested : Bool) : ∀ types : List Ty,
    Script.typeTexts (normalAll nested types) = Script.typeTexts types
  | [] => rfl
  | ty :: rest => by
      rw [normalAll, typeTexts, typeTexts, typeText_normal nested ty, typeTexts_normal nested rest]

end

theorem ascription_normal (script : Script) (ty : Ty) :
    script.ascription (ty.normal false) = script.ascription ty := by
  cases script with
  | typescript => rw [ascription, ascription, typeText_normal]
  | _ => rfl

end Script

namespace Surface

open Ty

mutual

theorem typeText_normal (surface : Surface) (outer nested : Bool) : ∀ ty : Ty,
    surface.typeText outer (ty.normal nested) = surface.typeText outer ty
  | .named name [] => by
      rw [normal]
      split <;> rfl
  | .named name (arg :: args) => by
      rw [normal, normalAll, typeText, typeText, ← normalAll,
        typeTexts_normal surface true true (arg :: args)]
  | .var name => rfl
  | .func parts => by
      rw [normal, typeText, typeText, typeTexts_normal surface false false parts]

theorem typeTexts_normal (surface : Surface) (outer nested : Bool) : ∀ types : List Ty,
    surface.typeTexts outer (normalAll nested types) = surface.typeTexts outer types
  | [] => rfl
  | ty :: rest => by
      rw [normalAll, typeTexts, typeTexts, typeText_normal surface outer nested ty,
        typeTexts_normal surface outer nested rest]

end

theorem constTypes_normal (ty : Ty) :
    constTypes (ty.normal false) = normalAll false (constTypes ty) := by
  cases ty with
  | named name args =>
    cases args with
    | nil => rfl
    | cons arg args => rfl
  | var name => rfl
  | func parts => rfl

end Surface

/-! ## Declarations -/

def Binding.normal (binding : Binding) : Binding :=
  { binding with type := binding.type.normal false }

def Tag.normal (tag : Tag) : Tag :=
  { tag with fields := tag.fields.map Binding.normal }

def Union.normal (union : Union) : Union :=
  { union with tags := union.tags.map Tag.normal }

def Equation.normal (equation : Equation) : Equation :=
  { equation with
    params := equation.params.map Binding.normal
    result := equation.result.normal false }

/-- The declaration with all its types in normal form. The parameters of a union are names. -/
def Decl.normal : Decl → Decl
  | .union declared => .union declared.normal
  | .function equation => .function equation.normal
  | .const equation => .const equation.normal
  | .unknown node => .unknown node

theorem types_normal (bindings : List Binding) :
    (bindings.map Binding.normal).map Binding.type =
      (bindings.map Binding.type).map (Ty.normal false) := by
  rw [List.map_map, List.map_map]
  rfl

theorem names_normal (bindings : List Binding) :
    (bindings.map Binding.normal).map Binding.name = bindings.map Binding.name := by
  rw [List.map_map]
  rfl

theorem Equation.signature_normal (equation : Equation) :
    equation.normal.signature = equation.signature.map (Ty.normal false) := by
  rw [signature, signature, List.map_append]
  exact congrArg (· ++ [equation.result.normal false]) (types_normal equation.params)

theorem Union.tagParams_normal (union : Union) (tag : Tag) :
    union.normal.tagParams tag.normal = union.tagParams tag := by
  have hparams : Ty.parameters (tag.normal.fields.map Binding.type) =
      Ty.parameters (tag.fields.map Binding.type) := by
    rw [Tag.normal, types_normal, Ty.parameters_normal]
  rw [tagParams, tagParams, hparams]
  rfl

namespace Script

theorem fieldTypes_normal (tag : Tag) : fieldTypes tag.normal = fieldTypes tag := by
  rw [fieldTypes, fieldTypes, Tag.normal, List.mapM_map]
  refine congrArg (List.mapM · tag.fields) (funext fun field => ?_)
  rw [Function.comp, Binding.normal, typeText_normal]

theorem tagParams_normal (union : Union) (tag : Tag) :
    tagParams union.normal tag.normal = tagParams union tag := by
  rw [tagParams, tagParams, Union.tagParams_normal]

theorem tagType_normal (union : Union) (tag : Tag) :
    tagType union.normal tag.normal = tagType union tag := by
  rw [tagType, tagType, tagParams_normal]
  rfl

theorem tagParts_normal (script : Script) (union : Union) (tag : Tag) :
    script.tagParts union.normal tag.normal = script.tagParts union tag := by
  cases script with
  | bare => rfl
  | javascript | typescript =>
    unfold tagParts tagAlias factory factoryParams factoryReturn typeParams
    simp only [fieldTypes_normal, tagType_normal, tagParams_normal]
    rfl

theorem union_normal (script : Script) (union : Union) :
    script.union union.normal = script.union union := by
  have hparts : union.normal.tags.mapM (script.tagParts union.normal) =
      union.tags.mapM (script.tagParts union) := by
    rw [Union.normal, List.mapM_map]
    refine congrArg (List.mapM · union.tags) (funext fun tag => ?_)
    exact tagParts_normal script union tag
  have halias : script.unionAlias union.normal = script.unionAlias union := by
    cases script with
    | typescript =>
      have hmembers : union.normal.tags.mapM (tagType union.normal) =
          union.tags.mapM (tagType union) := by
        rw [Union.normal, List.mapM_map]
        refine congrArg (List.mapM · union.tags) (funext fun tag => ?_)
        exact tagType_normal union tag
      rw [unionAlias, unionAlias, hmembers]
      rfl
    | _ => rfl
  rw [Script.union, Script.union, hparts, halias]

theorem params_normal (script : Script) (bindings : List Binding) :
    script.params (bindings.map Binding.normal) = script.params bindings := by
  rw [params, params, List.mapM_map]
  have hbinding : ((fun binding : Binding => do
      let ascription ← script.ascription binding.type
      return binding.name ++ ascription) ∘ Binding.normal : Binding → Except RenderError String) =
      fun binding => do
        let ascription ← script.ascription binding.type
        return binding.name ++ ascription := by
    funext binding
    rw [Function.comp, Binding.normal, ascription_normal]
  rw [hbinding]

theorem function_normal (script : Script) (equation : Equation) :
    script.function equation.normal = script.function equation := by
  have hheader : script.header equation.normal = script.header equation := by
    rw [header, header, Equation.signature_normal, Ty.parameters_normal, Equation.normal,
      params_normal, ascription_normal]
  rw [function, function, hheader]
  rfl

theorem const_normal (script : Script) (equation : Equation) :
    script.const equation.normal = script.const equation := by
  rw [const, const, Equation.normal, ascription_normal]

end Script

namespace Surface

theorem tagText_normal (surface : Surface) (tag : Tag) :
    surface.tagText tag.normal = surface.tagText tag := by
  have hfields : tag.normal.fields.map (fun field =>
      field.name ++ surface.typeMark ++ surface.typeText false field.type) =
        tag.fields.map fun field =>
          field.name ++ surface.typeMark ++ surface.typeText false field.type := by
    rw [Tag.normal, List.map_map]
    refine List.map_congr_left fun field _ => ?_
    rw [Function.comp, Binding.normal, typeText_normal]
  rw [tagText, tagText, hfields]
  simp only [Tag.normal, List.isEmpty_map]

theorem union_normal (surface : Surface) (union : Union) :
    surface.union union.normal = surface.union union := by
  cases union with
  | mk name params tags =>
    cases tags with
    | nil => rfl
    | cons first rest =>
      have hhead : surface.unionHead (Union.normal ⟨name, params, first :: rest⟩) first.normal =
          surface.unionHead ⟨name, params, first :: rest⟩ first := by
        cases surface <;> simp only [unionHead, tagText_normal] <;> rfl
      have htail : (rest.map Tag.normal).map (fun tag => indentStep ++ "| " ++ surface.tagText tag) =
          rest.map fun tag => indentStep ++ "| " ++ surface.tagText tag := by
        rw [List.map_map]
        refine List.map_congr_left fun tag _ => ?_
        rw [Function.comp, tagText_normal]
      simp only [Union.normal, List.map_cons] at hhead
      simp only [Surface.union, Union.normal, List.map_cons]
      rw [htail, hhead]

theorem signatureLine_normal (surface : Surface) (name : String) (types : List Ty) :
    surface.signatureLine name (types.map (Ty.normal false)) = surface.signatureLine name types := by
  rw [signatureLine, signatureLine, ← Ty.normalAll_eq_map, typeTexts_normal]

theorem function_normal (surface : Surface) (equation : Equation) :
    surface.function equation.normal = surface.function equation := by
  rw [function, function, Equation.signature_normal, Equation.normal, names_normal,
    signatureLine_normal]

theorem const_normal (surface : Surface) (equation : Equation) :
    surface.const equation.normal = surface.const equation := by
  rw [const, const, Equation.normal, constTypes_normal, Ty.normalAll_eq_map, signatureLine_normal]

end Surface

namespace Dialect

/-- A declaration and its normal form have the same text in every dialect. -/
theorem decl_normal (dialect : Dialect) (decl : Decl) :
    dialect.decl decl.normal = dialect.decl decl := by
  cases decl with
  | union declared => simp only [Decl.normal, Dialect.decl, Script.union_normal, Surface.union_normal]
  | function equation =>
    simp only [Decl.normal, Dialect.decl, Script.function_normal, Surface.function_normal]
  | const equation =>
    simp only [Decl.normal, Dialect.decl, Script.const_normal, Surface.const_normal]
  | unknown node => rfl

theorem decls_normal (dialect : Dialect) (body : List Decl) :
    dialect.decls (body.map Decl.normal) = dialect.decls body := by
  induction body with
  | nil => rfl
  | cons decl body ih => rw [List.map_cons, decls, decls, decl_normal, ih]

theorem emit_normal (dialect : Dialect) (body : List Decl) :
    dialect.emit (body.map Decl.normal) = dialect.emit body := by
  rw [emit, emit, decls_normal]

end Dialect

end Polyglot
