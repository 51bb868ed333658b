/-!
# Types

Types of the source language are names applied to arguments, variables, and functions. They are
never inferred or compared; declarations carry them to the targets that print types.
-/

namespace Polyglot

inductive Ty where
  /-- A named type, possibly applied to arguments. -/
  | named (name : String) (args : List Ty)
  | var (name : String)
  /-- A function type; the last part is the result. -/
  | func (parts : List Ty)
deriving Repr, Inhabited

namespace Ty

/-- The lower-case names that stand for concrete types. -/
def isBuiltin (name : String) : Bool :=
  name ∈ ["any", "boolean", "number", "string", "void"]

def any : Ty := .named "any" []

/-- The name of a type. A function type has none. -/
def name? : Ty → Option String
  | .named name _ => some name
  | .var name => some name
  | .func _ => none

/-! ## Variables -/

mutual

/-- The variables of a type from left to right, each as often as it occurs. -/
def vars : Ty → List String
  | .named _ args => varsAll args
  | .var name => [name]
  | .func parts => varsAll parts

def varsAll : List Ty → List String
  | [] => []
  | ty :: rest => vars ty ++ varsAll rest

end

theorem varsAll_eq_flatMap (types : List Ty) : varsAll types = types.flatMap vars := by
  induction types with
  | nil => rfl
  | cons ty rest ih => rw [varsAll, ih, List.flatMap_cons]

/-- The type parameters that types mention, in the order of their first appearance. A variable
with a builtin's name is no parameter. -/
def parameters (types : List Ty) : List String :=
  ((varsAll types).filter fun name => !isBuiltin name).eraseDups

/-! ## Equality -/

mutual

def same : Ty → Ty → Bool
  | .named name args, .named name' args' => name == name' && sameAll args args'
  | .var name, .var name' => name == name'
  | .func parts, .func parts' => sameAll parts parts'
  | _, _ => false

def sameAll : List Ty → List Ty → Bool
  | [], [] => true
  | ty :: rest, ty' :: rest' => same ty ty' && sameAll rest rest'
  | _, _ => false

end

mutual

theorem same_iff : ∀ a b : Ty, same a b = true ↔ a = b
  | .named name args, b => by
      cases b <;> simp [same, sameAll_iff args]
  | .var name, b => by
      cases b <;> simp [same]
  | .func parts, b => by
      cases b <;> simp [same, sameAll_iff parts]

theorem sameAll_iff : ∀ as bs : List Ty, sameAll as bs = true ↔ as = bs
  | [], bs => by
      cases bs <;> simp [sameAll]
  | ty :: rest, bs => by
      cases bs <;> simp [sameAll, same_iff ty, sameAll_iff rest]

end

instance : DecidableEq Ty := fun a b =>
  decidable_of_iff (same a b = true) (same_iff a b)

end Ty

end Polyglot
