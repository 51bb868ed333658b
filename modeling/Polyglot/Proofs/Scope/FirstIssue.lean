import Polyglot.Proofs.Decl.Parameters
import Polyglot.Scope

/-!
# The first issue of a declaration

The check of a declaration collects the named types and the variables of its types, each in a list
of its own, and looks these lists through. Here the same is said about places: a place is a path of
numbers into the declaration, `Ty.at?` is the part of a type at the end of a path, and `Offends` says
which places are wrong. The check says nothing exactly if no place is wrong, and otherwise speaks of
the first one. It fails on a node that lacks a part: a parameter of a union that has no name, or a
part of the signature of what is no declaration.

Results:
1. `findsFirst_collect`: the first element of a collected list that passes a test is the one at the
   first place.
2. `check_findsFirst`: the check finds the first issue.
3. `check_ofDecls_iff`: which nodes cannot be checked, what a declaration without an issue is, and
   which issue is reported.
-/

namespace Polyglot

namespace Ty

/-! ## Parts of a type -/

/-- The types directly inside a type. -/
def children : Ty → List Ty
  | .named _ args => args
  | .var _ => []
  | .func parts => parts

/-- The part of a type at the end of a path. The empty path ends at the type itself, and every number
of a path is the number of an argument or of a part. -/
def at? : Ty → List Nat → Option Ty
  | ty, [] => some ty
  | ty, i :: path => ty.children[i]?.bind fun part => part.at? path

mutual

theorem induction_children {P : Ty → Prop} (h : ∀ ty, (∀ part ∈ ty.children, P part) → P ty) :
    ∀ ty, P ty
  | .named name args => h (.named name args) (induction_all h args)
  | .var name => h (.var name) fun _ hpart => absurd hpart List.not_mem_nil
  | .func parts => h (.func parts) (induction_all h parts)

theorem induction_all {P : Ty → Prop} (h : ∀ ty, (∀ part ∈ ty.children, P part) → P ty) :
    ∀ types : List Ty, ∀ ty ∈ types, P ty
  | [], _, hty => absurd hty List.not_mem_nil
  | first :: rest, _, hty => (List.mem_cons.mp hty).elim
      (fun heq => heq ▸ induction_children h first) (induction_all h rest _)

end

/-- A named type, with its arguments. -/
def named? : Ty → Option (String × List Ty)
  | .named name args => some (name, args)
  | _ => none

def var? : Ty → Option String
  | .var name => some name
  | _ => none

theorem named?_eq_some_iff {ty : Ty} {name : String} {args : List Ty} :
    ty.named? = some (name, args) ↔ ty = .named name args := by
  cases ty <;> simp [named?]

theorem var?_eq_some_iff {ty : Ty} {name : String} : ty.var? = some name ↔ ty = .var name := by
  cases ty <;> simp [var?]

/-- `collect` lists what `pick` takes from a type and from all its parts, outer parts first. -/
def Collects {α : Type} (pick : Ty → Option α) (collect : Ty → List α) : Prop :=
  ∀ ty, collect ty = (pick ty).toList ++ ty.children.flatMap collect

theorem collects_namedParts : Collects named? namedParts := by
  intro ty
  cases ty with
  | named name args => rw [namedParts, namedPartsAll_eq_flatMap]; rfl
  | var name => rfl
  | func parts => rw [namedParts, namedPartsAll_eq_flatMap]; rfl

theorem collects_vars : Collects var? vars := by
  intro ty
  cases ty with
  | named name args => rw [vars, varsAll_eq_flatMap]; rfl
  | var name => rfl
  | func parts => rw [vars, varsAll_eq_flatMap]; rfl

end Ty

/-! ## The first place -/

/-- Places in order: an outer place comes before the places inside it, a left one before those right
of it. -/
def NoLater : List Nat → List Nat → Prop
  | [], _ => True
  | _ :: _, [] => False
  | i :: place, j :: place' => i < j ∨ i = j ∧ NoLater place place'

theorem NoLater.antisymm {place place' : List Nat} (h : NoLater place place')
    (h' : NoLater place' place) : place = place' := by
  induction place generalizing place' with
  | nil =>
    cases place' with
    | nil => rfl
    | cons j place' => exact h'.elim
  | cons i place ih =>
    cases place' with
    | nil => exact h.elim
    | cons j place' =>
      rcases h with hlt | ⟨rfl, h⟩
      · rcases h' with hlt' | ⟨heq, _⟩
        · exact absurd hlt (Nat.lt_asymm hlt')
        · exact absurd hlt (heq ▸ Nat.lt_irrefl i)
      · rcases h' with hlt | ⟨_, h'⟩
        · exact absurd hlt (Nat.lt_irrefl i)
        · rw [ih h h']

section FindsFirst

variable {α β : Type}

/-- Of all that `Found` has at any place, `a` stands at the first place. -/
def IsFirst (Found : List Nat → α → Prop) (place : List Nat) (a : α) : Prop :=
  Found place a ∧ ∀ place' a', Found place' a' → NoLater place place'

/-- The search ends with what `Found` has at the first place, or with nothing if it has nothing. -/
def FindsFirst (Found : List Nat → α → Prop) : Option α → Prop
  | none => ∀ place a, ¬ Found place a
  | some a => ∃ place, IsFirst Found place a

variable {Found Found' : List Nat → α → Prop} {found found' : Option α}

theorem FindsFirst.congr (h : FindsFirst Found found)
    (hiff : ∀ place a, Found place a ↔ Found' place a) : FindsFirst Found' found := by
  have heq : Found = Found' := funext fun place => funext fun a => propext (hiff place a)
  exact heq ▸ h

theorem FindsFirst.map (f : α → β) (h : FindsFirst Found found) :
    FindsFirst (fun place b => ∃ a, Found place a ∧ f a = b) (found.map f) := by
  cases found with
  | none =>
    rintro place _ ⟨a, ha, rfl⟩
    exact h place a ha
  | some a =>
    obtain ⟨place, ha, hfirst⟩ := h
    refine ⟨place, ⟨a, ha, rfl⟩, ?_⟩
    rintro place' _ ⟨a', ha', rfl⟩
    exact hfirst place' a' ha'

/-- Two searches one after the other: the places of the first come before those of the second. -/
theorem FindsFirst.or (h : FindsFirst Found found) (h' : FindsFirst Found' found') :
    FindsFirst (fun place a => (∃ path, place = 0 :: path ∧ Found path a) ∨
      ∃ path, place = 1 :: path ∧ Found' path a) (found.or found') := by
  cases found with
  | some a =>
    obtain ⟨place, ha, hfirst⟩ := h
    refine ⟨0 :: place, .inl ⟨place, rfl, ha⟩, ?_⟩
    rintro _ a' (⟨path, rfl, ha'⟩ | ⟨path, rfl, _⟩)
    · exact .inr ⟨rfl, hfirst path a' ha'⟩
    · exact .inl Nat.zero_lt_one
  | none =>
    cases found' with
    | none =>
      rintro _ a (⟨path, rfl, ha⟩ | ⟨path, rfl, ha⟩)
      · exact h path a ha
      · exact h' path a ha
    | some a =>
      obtain ⟨place, ha, hfirst⟩ := h'
      refine ⟨1 :: place, .inr ⟨place, rfl, ha⟩, ?_⟩
      rintro _ a' (⟨path, rfl, ha'⟩ | ⟨path, rfl, ha'⟩)
      · exact absurd ha' (h path a')
      · exact .inr ⟨rfl, hfirst path a' ha'⟩

/-- What is found in the items of a list. The place of an item is its number. -/
def Among (items : List β) (Found : β → List Nat → α → Prop) (place : List Nat) (a : α) : Prop :=
  ∃ i item path, items[i]? = some item ∧ place = i :: path ∧ Found item path a

/-- A search through a list, from left to right. -/
theorem findsFirst_findSome? {items : List β} {f : β → Option α} {Found : β → List Nat → α → Prop}
    (h : ∀ item ∈ items, FindsFirst (Found item) (f item)) :
    FindsFirst (Among items Found) (items.findSome? f) := by
  cases hfound : items.findSome? f with
  | none =>
    rintro place a ⟨i, item, path, hitem, _, ha⟩
    have hmem := List.mem_of_getElem? hitem
    have hnone := h item hmem
    rw [List.findSome?_eq_none_iff.mp hfound item hmem] at hnone
    exact hnone path a ha
  | some a =>
    obtain ⟨before, item, behind, rfl, hitem, hbefore⟩ := List.findSome?_eq_some_iff.mp hfound
    have hfirst := h item (by simp)
    rw [hitem] at hfirst
    obtain ⟨path, ha, hpath⟩ := hfirst
    refine ⟨before.length :: path, ⟨before.length, item, path, by simp, rfl, ha⟩, ?_⟩
    rintro _ a' ⟨i, item', path', hitem', rfl, ha'⟩
    rcases Nat.lt_trichotomy i before.length with hlt | rfl | hlt
    · -- nothing is found before the item
      rw [List.getElem?_append_left hlt] at hitem'
      have hmem := List.mem_of_getElem? hitem'
      have hnone := h item' (List.mem_append_left _ hmem)
      rw [hbefore item' hmem] at hnone
      exact absurd ha' (hnone path' a')
    · rw [List.getElem?_append_right (Nat.le_refl _), Nat.sub_self] at hitem'
      cases hitem'
      exact .inr ⟨rfl, hpath path' a' ha'⟩
    · exact .inl hlt

/-- A search through a list that was collected from a type. -/
theorem findsFirst_collect {pick : Ty → Option α} {collect : Ty → List α}
    (hcollect : Ty.Collects pick collect) (p : α → Bool) (ty : Ty) :
    FindsFirst (fun path a => ∃ part, ty.at? path = some part ∧ pick part = some a ∧ p a = true)
      ((collect ty).find? p) := by
  induction ty using Ty.induction_children with
  | h ty ih =>
  have hinside := findsFirst_findSome? ih
  rw [hcollect ty, List.find?_append, List.find?_flatMap]
  cases hhere : (pick ty).toList.find? p with
  | some a =>
    have hpick : pick ty = some a := Option.mem_toList.mp (List.mem_of_find?_eq_some hhere)
    exact ⟨[], ⟨ty, rfl, hpick, List.find?_some hhere⟩, fun _ _ _ => trivial⟩
  | none =>
    refine hinside.congr fun place a => ?_
    constructor
    · rintro ⟨i, child, path, hchild, rfl, part, hpart, hpick⟩
      refine ⟨part, ?_, hpick⟩
      rw [Ty.at?, hchild]
      exact hpart
    · rintro ⟨part, hpart, hpick, hp⟩
      cases place with
      | nil =>
        cases hpart
        have hno := List.find?_eq_none.mp hhere a (Option.mem_toList.mpr hpick)
        exact absurd hp hno
      | cons i path =>
        obtain ⟨child, hchild, hpart⟩ := Option.bind_eq_some_iff.mp hpart
        exact ⟨i, child, path, hchild, rfl, part, hpart, hpick, hp⟩

end FindsFirst

namespace Scope

/-! ## Places that are wrong -/

/-- The names that can be used in a module: the builtin ones, and those of its unions and tags. -/
def Known (body : List Decl) (name : String) : Prop :=
  name ∈ builtins ∨
    ∃ union, Decl.union union ∈ body ∧ (name = union.name ∨ ∃ tag ∈ union.tags, name = tag.name)

/-- A named type that is not known. -/
inductive IsUnknown (body : List Decl) : Ty → Issue → Prop
  | mk {name : String} {args : List Ty} : ¬ Known body name →
      IsUnknown body (.named name args) (.unknownType name args)

/-- A variable that is neither builtin nor bound by the union. -/
inductive IsUnbound (union : Union) : Ty → Issue → Prop
  | mk {name : String} : name ∉ builtins → name ∉ union.boundNames →
      IsUnbound union (.var name) (.unboundVariable name union.name union.boundNames)

/-- A part of one of the types is wrong, at any depth. The place is the number of the type, and then
the path to the part. -/
inductive WrongAt (Wrong : Ty → Issue → Prop) (types : List Ty) : List Nat → Issue → Prop
  | mk {i : Nat} {ty part : Ty} {path : List Nat} {issue : Issue} : types[i]? = some ty →
      ty.at? path = some part → Wrong part issue → WrongAt Wrong types (i :: path) issue

/-- The places of a declaration that are wrong. In a union the number of the tag comes first, and
then all unknown names of the tag before its unbound variables. -/
inductive Offends (body : List Decl) : Decl → List Nat → Issue → Prop
  | function {equation : Equation} {place : List Nat} {issue : Issue} :
      WrongAt (IsUnknown body) equation.signature place issue →
      Offends body (.function equation) place issue
  | const {equation : Equation} {place : List Nat} {issue : Issue} :
      WrongAt (IsUnknown body) equation.signature place issue →
      Offends body (.const equation) place issue
  | unknown {union : Union} {i : Nat} {tag : Tag} {place : List Nat} {issue : Issue} :
      union.tags[i]? = some tag →
      WrongAt (IsUnknown body) (tag.fields.map Binding.type) place issue →
      Offends body (.union union) (i :: 0 :: place) issue
  | unbound {union : Union} {i : Nat} {tag : Tag} {place : List Nat} {issue : Issue} :
      union.tags[i]? = some tag →
      WrongAt (IsUnbound union) (tag.fields.map Binding.type) place issue →
      Offends body (.union union) (i :: 1 :: place) issue

/-- The nodes that lack a part which the check asks for. -/
inductive Lacks : Decl → MissingPart → Prop
  /-- A function type has no name, so it is no parameter of a union. -/
  | param {union : Union} {parts : List Ty} : .func parts ∈ union.params →
      Lacks (.union union) ⟨"FunctionType", "name"⟩
  /-- Some nodes have no place for parameters. -/
  | params {node : StrayNode} : node.params? = none → Lacks (.unknown node) ⟨node.kind, "args"⟩
  /-- In that place, the first thing without a type is missed. -/
  | type {node : StrayNode} {before behind : List StrayParam} {param : StrayParam} :
      node.params? = some (before ++ param :: behind) →
      (∀ other ∈ before, other.typed = true) → param.typed = false →
      Lacks (.unknown node) ⟨param.kind, "type"⟩
  /-- What is no declaration has no result. -/
  | result {node : StrayNode} {params : List StrayParam} : node.params? = some params →
      (∀ param ∈ params, param.typed = true) → Lacks (.unknown node) ⟨node.kind, "return_type"⟩

section WrongAt

variable {Wrong : Ty → Issue → Prop} {types : List Ty}

/-- A search through what was collected from types finds the first wrong part, if the test is passed
by what is wrong. -/
theorem findsFirst_wrongAt {α : Type} {pick : Ty → Option α} {collect : Ty → List α} {p : α → Bool}
    {f : α → Issue} (hcollect : Ty.Collects pick collect)
    (hwrong : ∀ part issue, Wrong part issue ↔ ∃ a, pick part = some a ∧ p a = true ∧ f a = issue)
    (types : List Ty) :
    FindsFirst (WrongAt Wrong types) (((types.flatMap collect).find? p).map f) := by
  rw [List.find?_flatMap]
  refine ((findsFirst_findSome? fun ty _ => findsFirst_collect hcollect p ty).map f).congr
    fun place issue => ?_
  constructor
  · rintro ⟨a, ⟨i, ty, path, hty, rfl, part, hpart, hpick, hp⟩, hissue⟩
    exact .mk hty hpart ((hwrong part issue).mpr ⟨a, hpick, hp, hissue⟩)
  · rintro ⟨hty, hpart, hissue⟩
    obtain ⟨a, hpick, hp, hissue⟩ := (hwrong _ _).mp hissue
    exact ⟨a, ⟨_, _, _, hty, rfl, _, hpart, hpick, hp⟩, hissue⟩

theorem WrongAt.unique {place : List Nat} {issue issue' : Issue}
    (h : WrongAt Wrong types place issue) (h' : WrongAt Wrong types place issue')
    (hunique : ∀ part issue issue', Wrong part issue → Wrong part issue' → issue = issue') :
    issue = issue' := by
  obtain ⟨hty, hpart, hissue⟩ := h
  obtain ⟨hty', hpart', hissue'⟩ := h'
  cases hty.symm.trans hty'
  cases hpart.symm.trans hpart'
  exact hunique _ _ _ hissue hissue'

theorem not_wrongAt_iff : (∀ place issue, ¬ WrongAt Wrong types place issue) ↔
    ∀ ty ∈ types, ∀ path part, ty.at? path = some part → ∀ issue, ¬ Wrong part issue := by
  constructor
  · intro h ty hty path part hpart issue hissue
    obtain ⟨i, hi⟩ := List.getElem?_of_mem hty
    exact h _ _ (.mk hi hpart hissue)
  · rintro h _ _ ⟨hty, hpart, hissue⟩
    exact h _ (List.mem_of_getElem? hty) _ _ hpart _ hissue

end WrongAt

/-! ## The check -/

theorem contains_ofDecls_iff {body : List Decl} {name : String} :
    (ofDecls body).contains name = true ↔ Known body name := by
  rw [contains, decide_eq_true_iff, ofDecls, List.mem_append, List.mem_flatMap]
  refine or_congr Iff.rfl ⟨?_, ?_⟩
  · rintro ⟨decl, hdecl, hname⟩
    cases decl with
    | union union =>
      refine ⟨union, hdecl, (List.mem_cons.mp hname).imp_right fun hmem => ?_⟩
      obtain ⟨tag, htag, rfl⟩ := List.mem_map.mp hmem
      exact ⟨tag, htag, rfl⟩
    | function _ | const _ | unknown _ => cases hname
  · rintro ⟨union, hunion, hname⟩
    refine ⟨.union union, hunion, List.mem_cons.mpr (hname.imp_right ?_)⟩
    rintro ⟨tag, htag, rfl⟩
    exact List.mem_map_of_mem htag

theorem checkNamed_findsFirst (body : List Decl) (types : List Ty) :
    FindsFirst (WrongAt (IsUnknown body) types) ((ofDecls body).checkNamed types) := by
  rw [checkNamed, Ty.namedPartsAll_eq_flatMap]
  refine findsFirst_wrongAt Ty.collects_namedParts (fun part issue => ?_) types
  simp only [Bool.not_eq_true', ← Bool.not_eq_true, contains_ofDecls_iff]
  constructor
  · rintro ⟨hunknown⟩
    exact ⟨_, rfl, hunknown, rfl⟩
  · rintro ⟨⟨name, args⟩, hnamed, hunknown, rfl⟩
    rw [Ty.named?_eq_some_iff.mp hnamed]
    exact .mk hunknown

theorem checkVars_findsFirst (union : Union) (tag : Tag) :
    FindsFirst (WrongAt (IsUnbound union) (tag.fields.map Binding.type))
      (checkVars union.name union.boundNames tag) := by
  rw [checkVars, Ty.varsAll_eq_flatMap]
  refine findsFirst_wrongAt Ty.collects_vars (fun part issue => ?_) _
  simp only [Bool.not_eq_true', Bool.or_eq_false_iff, List.contains_eq_mem, decide_eq_false_iff_not]
  constructor
  · rintro ⟨hbuiltin, hbound⟩
    exact ⟨_, rfl, ⟨hbuiltin, hbound⟩, rfl⟩
  · rintro ⟨name, hvar, ⟨hbuiltin, hbound⟩, rfl⟩
    rw [Ty.var?_eq_some_iff.mp hvar]
    exact .mk hbuiltin hbound

theorem check_union (scope : Scope) {union : Union} (h : union.Named) :
    scope.check (.union union) =
      .ok (union.tags.findSome? (scope.checkTag union.name union.boundNames)) := by
  rw [check, Union.paramNames_eq_ok h]
  rfl

theorem lacks_unknown_iff {node : StrayNode} {missing : MissingPart} :
    Lacks (.unknown node) missing ↔ node.missing = missing := by
  constructor
  · intro h
    cases h with
    | params hnone => rw [StrayNode.missing, hnone]
    | @type _ before behind param hparams hbefore hparam =>
      have hfound : (before ++ param :: behind).find? (!·.typed) = some param := by
        refine List.find?_eq_some_iff_append.mpr ⟨by rw [hparam]; rfl, before, behind, rfl, ?_⟩
        intro other hother
        rw [hbefore other hother]
        rfl
      rw [StrayNode.missing, hparams]
      dsimp only
      rw [hfound]
    | @result _ params hparams htyped =>
      have hfound : params.find? (!·.typed) = none := by
        refine List.find?_eq_none.mpr fun param hparam => ?_
        rw [htyped param hparam]
        decide
      rw [StrayNode.missing, hparams]
      dsimp only
      rw [hfound]
  · rintro rfl
    unfold StrayNode.missing
    split
    · next hnone => exact .params hnone
    · next params hparams =>
      split
      · next param hparam =>
        obtain ⟨huntyped, before, behind, rfl, hbefore⟩ := List.find?_eq_some_iff_append.mp hparam
        refine .type hparams (fun other hother => ?_) (by simpa using huntyped)
        simpa using hbefore other hother
      · next hnone =>
        refine .result hparams fun param hparam => ?_
        simpa using List.find?_eq_none.mp hnone param hparam

/-- The check fails exactly on a node that lacks a part. -/
theorem check_eq_error_iff {scope : Scope} {decl : Decl} {missing : MissingPart} :
    scope.check decl = .error missing ↔ Lacks decl missing := by
  cases decl with
  | function equation | const equation =>
    refine iff_of_false (fun h => ?_) fun h => ?_
    · cases h
    · cases h
  | unknown node =>
    rw [lacks_unknown_iff]
    exact ⟨Except.error.inj, congrArg Except.error⟩
  | union union =>
    constructor
    · intro h
      by_cases hnamed : union.Named
      · rw [check_union scope hnamed] at h
        cases h
      · obtain ⟨parts, hparts⟩ := not_forall_not.mp hnamed
        rw [check, Union.paramNames_eq_error hparts] at h
        cases h
        exact .param hparts
    · rintro ⟨hparts⟩
      rw [check, Union.paramNames_eq_error hparts]
      rfl

/-- The check finds the first issue, if nothing is lacking. -/
theorem check_findsFirst (body : List Decl) {decl : Decl} {found : Option Issue}
    (h : (ofDecls body).check decl = .ok found) : FindsFirst (Offends body decl) found := by
  cases decl with
  | function equation =>
    cases h
    refine (checkNamed_findsFirst body equation.signature).congr fun place issue => ?_
    refine ⟨.function, fun h => ?_⟩
    cases h with
    | function hunknown => exact hunknown
  | const equation =>
    cases h
    refine (checkNamed_findsFirst body equation.signature).congr fun place issue => ?_
    refine ⟨.const, fun h => ?_⟩
    cases h with
    | const hunknown => exact hunknown
  | union union =>
    obtain ⟨names, hnames, _⟩ := exists_of_bind_eq_ok h
    rw [check_union _ (Union.named_of_paramNames hnames)] at h
    cases h
    refine (findsFirst_findSome? fun tag _ => (checkNamed_findsFirst body _).or
      (checkVars_findsFirst union tag)).congr fun place issue => ?_
    constructor
    · rintro ⟨i, tag, _, htag, rfl, ⟨path, rfl, hunknown⟩ | ⟨path, rfl, hunbound⟩⟩
      · exact .unknown htag hunknown
      · exact .unbound htag hunbound
    · rintro (_ | _ | ⟨htag, hunknown⟩ | ⟨htag, hunbound⟩)
      · exact ⟨_, _, _, htag, rfl, .inl ⟨_, rfl, hunknown⟩⟩
      · exact ⟨_, _, _, htag, rfl, .inr ⟨_, rfl, hunbound⟩⟩
  | unknown node => cases h

theorem IsUnknown.unique {body : List Decl} {part : Ty} {issue issue' : Issue}
    (h : IsUnknown body part issue) (h' : IsUnknown body part issue') : issue = issue' := by
  cases h
  cases h'
  rfl

theorem IsUnbound.unique {union : Union} {part : Ty} {issue issue' : Issue}
    (h : IsUnbound union part issue) (h' : IsUnbound union part issue') : issue = issue' := by
  cases h
  cases h'
  rfl

/-- There is one issue at a place. -/
theorem Offends.unique {body : List Decl} {decl : Decl} {place : List Nat} {issue issue' : Issue}
    (h : Offends body decl place issue) (h' : Offends body decl place issue') : issue = issue' := by
  cases h with
  | function hunknown =>
    cases h' with
    | function hunknown' => exact hunknown.unique hunknown' fun _ _ _ => IsUnknown.unique
  | const hunknown =>
    cases h' with
    | const hunknown' => exact hunknown.unique hunknown' fun _ _ _ => IsUnknown.unique
  | unknown htag hunknown =>
    cases h' with
    | unknown htag' hunknown' =>
      cases htag.symm.trans htag'
      exact hunknown.unique hunknown' fun _ _ _ => IsUnknown.unique
  | unbound htag hunbound =>
    cases h' with
    | unbound htag' hunbound' =>
      cases htag.symm.trans htag'
      exact hunbound.unique hunbound' fun _ _ _ => IsUnbound.unique

/-- Nothing but the first issue is found. -/
theorem found_eq_some_iff {body : List Decl} {decl : Decl} {found : Option Issue}
    (h : FindsFirst (Offends body decl) found) {issue : Issue} :
    found = some issue ↔ ∃ place, IsFirst (Offends body decl) place issue := by
  cases found with
  | none =>
    constructor
    · intro hsome
      cases hsome
    · rintro ⟨place, hoffends, _⟩
      exact absurd hoffends (h place issue)
  | some found =>
    obtain ⟨place, hoffends, hleast⟩ := h
    rw [Option.some.injEq]
    constructor
    · rintro rfl
      exact ⟨place, hoffends, hleast⟩
    · rintro ⟨place', hoffends', hleast'⟩
      have hsame : place = place' :=
        (hleast place' issue hoffends').antisymm (hleast' place found hoffends)
      exact hoffends.unique (hsame ▸ hoffends')

/-- A node that lacks nothing is checked. -/
theorem exists_check {decl : Decl} (h : ∀ missing, ¬ Lacks decl missing) (scope : Scope) :
    ∃ found, scope.check decl = .ok found := by
  cases hcheck : scope.check decl with
  | error missing => exact absurd (check_eq_error_iff.mp hcheck) (h missing)
  | ok found => exact ⟨found, rfl⟩

theorem not_lacks_of_check {scope : Scope} {decl : Decl} {found : Option Issue}
    (h : scope.check decl = .ok found) (missing : MissingPart) : ¬ Lacks decl missing := by
  intro hlacks
  rw [check_eq_error_iff.mpr hlacks] at h
  cases h

/-- An issue is reported if and only if it stands at the first place that is wrong. -/
theorem check_eq_some_iff {body : List Decl} {decl : Decl} {issue : Issue} :
    (ofDecls body).check decl = .ok (some issue) ↔
      (∀ missing, ¬ Lacks decl missing) ∧ ∃ place, IsFirst (Offends body decl) place issue := by
  constructor
  · intro h
    exact ⟨not_lacks_of_check h, (found_eq_some_iff (check_findsFirst body h)).mp rfl⟩
  · rintro ⟨hlacks, hfirst⟩
    obtain ⟨found, hcheck⟩ := exists_check hlacks (ofDecls body)
    rw [hcheck, (found_eq_some_iff (check_findsFirst body hcheck)).mpr hfirst]

/-! ## Declarations without an issue -/

/-- Every named type in a type, at any depth, is known. -/
def NamesKnown (body : List Decl) (ty : Ty) : Prop :=
  ∀ path name args, ty.at? path = some (.named name args) → Known body name

/-- Every variable in a type, at any depth, is builtin or bound by the union. -/
def VarsBound (union : Union) (ty : Ty) : Prop :=
  ∀ path name, ty.at? path = some (.var name) → name ∈ builtins ∨ name ∈ union.boundNames

/-- All types of a declaration resolve. -/
def Resolves (body : List Decl) : Decl → Prop
  | .union union => ∀ tag ∈ union.tags, ∀ field ∈ tag.fields,
      NamesKnown body field.type ∧ VarsBound union field.type
  | .function equation | .const equation => ∀ ty ∈ equation.signature, NamesKnown body ty
  | .unknown _ => True

theorem namesKnown_iff {body : List Decl} {types : List Ty} :
    (∀ ty ∈ types, NamesKnown body ty) ↔
      ∀ place issue, ¬ WrongAt (IsUnknown body) types place issue := by
  rw [not_wrongAt_iff]
  refine forall₂_congr fun ty _ => ⟨?_, ?_⟩
  · rintro h path _ hpart _ ⟨hunknown⟩
    exact hunknown (h path _ _ hpart)
  · intro h path name args hpart
    by_contra hunknown
    exact h path _ hpart _ (.mk hunknown)

theorem varsBound_iff {union : Union} {types : List Ty} :
    (∀ ty ∈ types, VarsBound union ty) ↔
      ∀ place issue, ¬ WrongAt (IsUnbound union) types place issue := by
  rw [not_wrongAt_iff]
  refine forall₂_congr fun ty _ => ⟨?_, ?_⟩
  · rintro h path _ hpart _ ⟨hbuiltin, hbound⟩
    exact (h path _ hpart).elim hbuiltin hbound
  · intro h path name hpart
    by_contra hunbound
    rw [not_or] at hunbound
    exact h path _ hpart _ (.mk hunbound.1 hunbound.2)

theorem resolves_iff {body : List Decl} {decl : Decl} :
    Resolves body decl ↔ ∀ place issue, ¬ Offends body decl place issue := by
  cases decl with
  | function equation =>
    rw [Resolves, namesKnown_iff]
    constructor
    · intro h place issue hoffends
      cases hoffends with
      | function hunknown => exact h place issue hunknown
    · intro h place issue hunknown
      exact h place issue (.function hunknown)
  | const equation =>
    rw [Resolves, namesKnown_iff]
    constructor
    · intro h place issue hoffends
      cases hoffends with
      | const hunknown => exact h place issue hunknown
    · intro h place issue hunknown
      exact h place issue (.const hunknown)
  | union union =>
    have htags : Resolves body (.union union) ↔ ∀ tag ∈ union.tags,
        (∀ place issue, ¬ WrongAt (IsUnknown body) (tag.fields.map Binding.type) place issue) ∧
          ∀ place issue, ¬ WrongAt (IsUnbound union) (tag.fields.map Binding.type) place issue := by
      simp only [Resolves, ← namesKnown_iff, ← varsBound_iff, List.forall_mem_map, forall_and]
    rw [htags]
    constructor
    · rintro h _ _ (_ | _ | ⟨htag, hunknown⟩ | ⟨htag, hunbound⟩)
      · exact (h _ (List.mem_of_getElem? htag)).1 _ _ hunknown
      · exact (h _ (List.mem_of_getElem? htag)).2 _ _ hunbound
    · intro h tag htag
      obtain ⟨i, hi⟩ := List.getElem?_of_mem htag
      exact ⟨fun _ _ hunknown => h _ _ (.unknown hi hunknown),
        fun _ _ hunbound => h _ _ (.unbound hi hunbound)⟩
  | unknown node =>
    refine ⟨fun _ place issue hoffends => ?_, fun _ => trivial⟩
    cases hoffends

theorem check_eq_none_iff {body : List Decl} {decl : Decl} :
    (ofDecls body).check decl = .ok none ↔
      (∀ missing, ¬ Lacks decl missing) ∧ Resolves body decl := by
  rw [resolves_iff]
  constructor
  · intro h
    exact ⟨not_lacks_of_check h, check_findsFirst body h⟩
  · rintro ⟨hlacks, hnone⟩
    obtain ⟨found, hcheck⟩ := exists_check hlacks (ofDecls body)
    have hfirst := check_findsFirst body hcheck
    cases found with
    | none => exact hcheck
    | some issue =>
      obtain ⟨place, hoffends, _⟩ := hfirst
      exact absurd hoffends (hnone place issue)

/-- The check fails exactly on a union with a parameter that has no name, and on what is no
declaration. Of every other node nothing is said exactly if all its types resolve among the
declarations of the module. Otherwise the message is about the first place that is wrong. -/
theorem check_ofDecls_iff (body : List Decl) (decl : Decl) :
    (∀ missing, (ofDecls body).check decl = .error missing ↔ Lacks decl missing) ∧
      ((ofDecls body).check decl = .ok none ↔
        (∀ missing, ¬ Lacks decl missing) ∧ Resolves body decl) ∧
      ∀ message, ((ofDecls body).check decl).map (Option.map Issue.message) = .ok (some message) ↔
        (∀ missing, ¬ Lacks decl missing) ∧
          ∃ place issue, IsFirst (Offends body decl) place issue ∧ issue.message = message := by
  refine ⟨fun missing => check_eq_error_iff, check_eq_none_iff, fun message => ?_⟩
  constructor
  · intro h
    obtain ⟨found, hcheck, hmessage⟩ := exists_of_map_eq_ok h
    obtain ⟨issue, rfl, hissue⟩ := Option.map_eq_some_iff.mp hmessage
    obtain ⟨hlacks, place, hfirst⟩ := check_eq_some_iff.mp hcheck
    exact ⟨hlacks, place, issue, hfirst, hissue⟩
  · rintro ⟨hlacks, place, issue, hfirst, rfl⟩
    rw [check_eq_some_iff.mpr ⟨hlacks, place, hfirst⟩]
    rfl

/-- A union whose parameter is a function type resolves in every module, but is not checked. -/
theorem check_function_parameter :
    let declared : Union := ⟨"T", [.func [.var "a", .var "a"]], [⟨"A", []⟩]⟩
    Resolves [.union declared] (.union declared) ∧
      (ofDecls [.union declared]).check (.union declared) = .error ⟨"FunctionType", "name"⟩ ∧
      MissingPart.message ⟨"FunctionType", "name"⟩ =
        "'FunctionType' object has no attribute 'name'" := by
  refine ⟨fun tag htag field hfield => ?_, rfl, rfl⟩
  obtain rfl := List.mem_singleton.mp htag
  cases hfield

-- An unknown name of a tag comes before a variable that stands left of it.
example : (ofDecls []).check (.union ⟨"U", [.var "a"],
    [⟨"A", [⟨"x", .var "b"⟩, ⟨"y", .func [.var "a", .named "List" [.named "M" []]]⟩]⟩]⟩) =
      .ok (some (.unknownType "M" [])) := by
  decide

end Scope

end Polyglot
