import Polyglot.Expr
import Polyglot.Ty

/-!
# Declarations

A module declares unions, functions and constants.
-/

namespace Polyglot

/-- A name with its type: a field of a tag, or a parameter of a function. -/
structure Binding where
  name : String
  type : Ty
deriving DecidableEq, Repr

/-- One case of a union, with its fields. -/
structure Tag where
  name : String
  fields : List Binding
deriving DecidableEq, Repr

/-- A type given by its cases. The parameters are variables in every union read from a text. -/
structure Union where
  name : String
  params : List Ty
  tags : List Tag
deriving DecidableEq, Repr

/-- A name defined by an expression. -/
structure Equation where
  name : String
  params : List Binding
  result : Ty
  body : Expr
deriving DecidableEq, Repr

namespace Equation

/-- The types of the parameters, then the type of the result. -/
def signature (equation : Equation) : List Ty :=
  equation.params.map Binding.type ++ [equation.result]

end Equation

/-- What stands in a node in the place of a parameter, with or without a type. -/
structure StrayParam where
  kind : String
  typed : Bool
deriving DecidableEq, Repr

/-- A node that is no declaration, as far as it is looked at: the name of its kind and, if there is
such a place, what stands in the place of the parameters. -/
structure StrayNode where
  kind : String
  params? : Option (List StrayParam)
deriving DecidableEq, Repr

inductive Decl where
  | union (union : Union)
  | function (equation : Equation)
  | const (equation : Equation)
  /-- A node that is no declaration. Nothing can render it. -/
  | unknown (node : StrayNode)
deriving DecidableEq, Repr

/-- A node was asked for a part that nodes of its kind do not have. -/
structure MissingPart where
  kind : String
  part : String
deriving DecidableEq, Repr

def MissingPart.message (missing : MissingPart) : String :=
  "'" ++ missing.kind ++ "' object has no attribute '" ++ missing.part ++ "'"

/-- The first part of a signature that the node does not have: the place of the parameters, the type
of one of them, or the result. -/
def StrayNode.missing (node : StrayNode) : MissingPart :=
  match node.params? with
  | none => ⟨node.kind, "args"⟩
  | some params =>
      match params.find? (!·.typed) with
      | some param => ⟨param.kind, "type"⟩
      | none => ⟨node.kind, "return_type"⟩

namespace Union

/-- The names of the parameters. A parameter that is a function type has none. -/
def paramNames (union : Union) : Except MissingPart (List String) :=
  union.params.mapM fun param =>
    match param.name? with
    | some name => .ok name
    | none => .error ⟨"FunctionType", "name"⟩

/-- The parameters of the union that the fields of a tag mention, in the order of declaration. -/
def tagParams (union : Union) (tag : Tag) : Except MissingPart (List String) := do
  let names ← union.paramNames
  return names.filter fun name => name ∈ Ty.parameters (tag.fields.map Binding.type)

end Union

end Polyglot
