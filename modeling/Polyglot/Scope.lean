import Polyglot.Decl

/-!
# Type names in scope

Every named type of a declaration is builtin or is declared in the same module, as a union or as
one of its tags; the order of declarations does not matter. A union binds the variables of its
fields.
-/

namespace Polyglot

namespace Ty

/-! ## Spelling in messages -/

mutual

/-- The spelling of a type in a message: applications and functions stand in parentheses. -/
def spelled : Ty → String
  | .named name [] => name
  | .named name (arg :: args) =>
      "(" ++ name ++ " " ++ " ".intercalate (spelledAll (arg :: args)) ++ ")"
  | .var name => name
  | .func parts => "(" ++ " -> ".intercalate (spelledAll parts) ++ ")"

def spelledAll : List Ty → List String
  | [] => []
  | ty :: rest => spelled ty :: spelledAll rest

end

mutual

/-- The named types inside a type, each before its arguments, from left to right. -/
def namedParts : Ty → List (String × List Ty)
  | .named name args => (name, args) :: namedPartsAll args
  | .var _ => []
  | .func parts => namedPartsAll parts

def namedPartsAll : List Ty → List (String × List Ty)
  | [] => []
  | ty :: rest => namedParts ty ++ namedPartsAll rest

end

theorem namedPartsAll_eq_flatMap (types : List Ty) :
    namedPartsAll types = types.flatMap namedParts := by
  induction types with
  | nil => rfl
  | cons ty rest ih => rw [namedPartsAll, ih, List.flatMap_cons]

end Ty

/-! ## Issues -/

/-- Why a type does not resolve. -/
inductive Issue where
  | unknownType (name : String) (args : List Ty)
  | unboundVariable (name : String) (union : String) (bound : List String)
deriving DecidableEq, Repr

def Issue.message : Issue → String
  | .unknownType name [] => "Type " ++ name ++ " did not exist in the namespace"
  | .unknownType name (arg :: args) =>
      "Type " ++ name ++ " (" ++ ", ".intercalate (Ty.spelledAll (arg :: args)) ++
        ") did not exist in the namespace"
  | .unboundVariable name union bound =>
      "Type variable " ++ name ++ " is not bound by " ++ " ".intercalate (union :: bound)

/-! ## Scopes -/

/-- The type names that a module can use, in the order in which they were declared. -/
structure Scope where
  names : List String
deriving DecidableEq, Repr

namespace Scope

def builtins : List String :=
  ["any", "boolean", "number", "string", "void", "List"]

/-- The type names that a declaration adds. -/
def declaredBy : Decl → List String
  | .union union => union.name :: union.tags.map Tag.name
  | _ => []

def ofDecls (decls : List Decl) : Scope :=
  ⟨builtins ++ decls.flatMap declaredBy⟩

def contains (scope : Scope) (name : String) : Bool :=
  name ∈ scope.names

/-- Every name once, by code points. -/
def sortedNames (scope : Scope) : List String :=
  scope.names.eraseDups.mergeSort fun a b => decide (a ≤ b)

/-- The first named type among `types` that is not in scope. -/
def checkNamed (scope : Scope) (types : List Ty) : Option Issue :=
  ((Ty.namedPartsAll types).find? fun part => !scope.contains part.1).map fun part =>
    .unknownType part.1 part.2

/-- The first variable of a tag's fields that the union does not bind. Builtin names are always
bound. -/
def checkVars (union : String) (bound : List String) (tag : Tag) : Option Issue :=
  ((Ty.varsAll (tag.fields.map Binding.type)).find? fun name =>
      !(builtins.contains name || bound.contains name)).map fun name =>
    .unboundVariable name union bound

/-- The first issue of a tag of the union with this name and these parameters: names that are not in
scope come before variables that are not bound. -/
def checkTag (scope : Scope) (union : String) (bound : List String) (tag : Tag) : Option Issue :=
  (scope.checkNamed (tag.fields.map Binding.type)).or (checkVars union bound tag)

/-- The first issue of a declaration. A union is asked for the names of its parameters before its
tags are looked at, and any other node for its signature. -/
def check (scope : Scope) : Decl → Except MissingPart (Option Issue)
  | .union union => do
      let bound ← union.paramNames
      return union.tags.findSome? (scope.checkTag union.name bound)
  | .function equation | .const equation => .ok (scope.checkNamed equation.signature)
  | .unknown node => .error node.missing

/-- The first issue of a declaration that can be checked, as every declaration of a text can. -/
def issue? (scope : Scope) (decl : Decl) : Option Issue :=
  match scope.check decl with
  | .ok issue? => issue?
  | .error _ => none

end Scope

end Polyglot
