import Polyglot.Dialect

/-!
# Types in each dialect

Only typescript has types among the scripts, and there a function type without parts cannot be
written. The surface dialects spell every type; an application stands in parentheses where it is
itself an argument.
-/

namespace Polyglot

/-- A text in parentheses if `condition` holds. -/
def parenthesized (condition : Bool) (text : String) : String :=
  if condition then "(" ++ text ++ ")" else text

namespace Ty

def isFunc : Ty → Bool
  | .func _ => true
  | _ => false

end Ty

namespace Script

/-! ## Typescript -/

/-- Parameters of a function type have no names of their own, so they are numbered. -/
def numbered : Nat → List String → List String
  | _, [] => []
  | count, text :: rest => ("arg" ++ toString count ++ ": " ++ text) :: numbered (count + 1) rest

/-- A function type, from the texts of its parts. -/
def functionType (texts : List String) : Except RenderError String :=
  match texts.getLast? with
  | none => .error .noResult
  | some result => .ok ("(" ++ ", ".intercalate (numbered 0 texts.dropLast) ++ ") => " ++ result)

/-- A type name applied to arguments, from the arguments and their texts. A list is an array. -/
def appliedType (name : String) (args : List Ty) (texts : List String) : String :=
  match args, texts with
  | [], _ => name
  | [arg], [text] =>
      if name = "List" then parenthesized arg.isFunc text ++ "[]" else name ++ "<" ++ text ++ ">"
  | _, _ => name ++ "<" ++ ", ".intercalate texts ++ ">"

mutual

def typeText : Ty → Except RenderError String
  | .named name args => do
      let texts ← typeTexts args
      return appliedType name args texts
  | .var name => .ok name
  | .func parts => do
      let texts ← typeTexts parts
      functionType texts

def typeTexts : List Ty → Except RenderError (List String)
  | [] => .ok []
  | ty :: rest => do
      let text ← typeText ty
      let texts ← typeTexts rest
      return text :: texts

end

/-! ## Ascriptions -/

/-- What follows a name to give its type. -/
def ascription : Script → Ty → Except RenderError String
  | .javascript, _ => .ok ""
  | .typescript, ty => do
      let text ← typeText ty
      return ": " ++ text
  | .bare, _ => .error .undecided

/-- A list of type parameters, nothing if it is empty. -/
def angled (names : List String) : String :=
  if names.isEmpty then "" else "<" ++ ", ".intercalate names ++ ">"

/-- What follows the name of a function to declare its type parameters. -/
def typeParams : Script → List String → Except RenderError String
  | .javascript, _ => .ok ""
  | .typescript, names => .ok (angled names)
  | .bare, _ => .error .undecided

end Script

namespace Surface

/-! ## Surface types -/

def typeName : Surface → String → String
  | .elm, "boolean" => "Bool"
  | .elm, "number" => "Float"
  | .elm, "string" => "String"
  | .elm, "void" => "()"
  | _, name => name

mutual

/-- The text of a type; `nested` if it is an argument of another. -/
def typeText (surface : Surface) (nested : Bool) : Ty → String
  | .named name [] => surface.typeName name
  | .named name (arg :: args) =>
      parenthesized nested
        (surface.typeName name ++ " " ++ " ".intercalate (typeTexts surface true (arg :: args)))
  | .var name => surface.typeName name
  | .func parts => "(" ++ " -> ".intercalate (typeTexts surface false parts) ++ ")"

def typeTexts (surface : Surface) (nested : Bool) : List Ty → List String
  | [] => []
  | ty :: rest => typeText surface nested ty :: typeTexts surface nested rest

end

end Surface

end Polyglot
