import Polyglot.Decl
import Polyglot.Text.Quoted

/-!
# Dialects

A dialect is a way to write a program down. The script dialects put function bodies into
statements, the surface dialects into indented equations. The two members of a family differ in
a few decisions; a bare member leaves them open, and the bare dialect leaves everything open
that is not common to all. Rendering stops where an open decision is reached.

Rendering carries an indent counter. `Render.indented` raises it for a part of the text; a
failure inside leaves it raised.
-/

namespace Polyglot

/-- The script family. -/
inductive Script where
  | javascript
  | typescript
  | bare
deriving DecidableEq, Repr

/-- The surface family. -/
inductive Surface where
  | derw
  | elm
  | bare
deriving DecidableEq, Repr

inductive Style where
  | script (script : Script)
  | surface (surface : Surface)
deriving DecidableEq, Repr

inductive Dialect where
  | bare
  | styled (style : Style)
deriving DecidableEq, Repr

/-! ## Failures -/

inductive RenderError where
  | unknownDecl (kind : String)
  | unknownExpr (kind : String)
  /-- The dialect leaves a decision open. -/
  | undecided
  /-- A function type without parts has no result. -/
  | noResult
  /-- A union without tags has no first tag. -/
  | noTag
  | noOperator (name : String)
  | missing (part : MissingPart)
deriving DecidableEq, Repr

def RenderError.message : RenderError → String
  | .unknownDecl kind => "unhandled declaration kind: " ++ kind
  | .unknownExpr kind => "unhandled expression kind: " ++ kind
  | .undecided => ""
  | .noResult => "tuple index out of range"
  | .noTag => "tuple index out of range"
  | .noOperator name => Text.quoted name
  | .missing part => part.message

/-! ## Indentation -/

/-- A rendering that may fail; its state is the indent counter. -/
abbrev Render := EStateM RenderError Int

/-- One step of indentation. -/
def indentStep : String := "    "

/-- As many steps as the counter says, none if it is negative. -/
def indentText (count : Int) : String :=
  String.join (List.replicate count.toNat indentStep)

namespace Render

variable {α : Type}

/-- A rendering that does not look at the indent counter. -/
def ofExcept (result : Except RenderError α) : Render α := fun count =>
  match result with
  | .ok value => .ok value count
  | .error error => .error error count

instance : MonadLift (Except RenderError) Render := ⟨ofExcept⟩

/-- The blanks at the start of a line. -/
def indentation : Render String := fun count =>
  .ok (indentText count) count

/-- Renders one step further in. -/
def indented (part : Render α) : Render α := do
  modify (· + 1)
  let value ← part
  modify (· - 1)
  return value

end Render

/-! ## Words and operators -/

namespace Dialect

/-- The style of a dialect that has one. -/
def style : Dialect → Except RenderError Style
  | .bare => .error .undecided
  | .styled style => .ok style

/-- The operator for an operation. -/
def operator : Dialect → BinaryOp → String
  | .styled (.script _), .eq => "==="
  | .styled (.script _), .ne => "!=="
  | .styled (.surface .elm), .ne => "/="
  | _, op => op.sign

/-- The spelling of a name, a number or a boolean. -/
def word : Dialect → String → String
  | .styled (.surface .elm), "true" => "True"
  | .styled (.surface .elm), "false" => "False"
  | _, body => body

end Dialect

namespace BinaryOp

def name : BinaryOp → String
  | .add => "Addition"
  | .sub => "Subtraction"
  | .mul => "Multiplication"
  | .div => "Division"
  | .and => "And"
  | .or => "Or"
  | .eq => "Equality"
  | .ne => "InEquality"
  | .lt => "LessThan"
  | .le => "LessThanOrEqual"
  | .gt => "GreaterThan"
  | .ge => "GreaterThanOrEqual"

def all : List BinaryOp :=
  [.add, .sub, .mul, .div, .and, .or, .eq, .ne, .lt, .le, .gt, .ge]

def ofName? (name : String) : Option BinaryOp :=
  all.find? fun op => op.name == name

end BinaryOp

/-- The operator for the operation of a given name. -/
def Dialect.operatorNamed (dialect : Dialect) (name : String) : Except RenderError String :=
  match BinaryOp.ofName? name with
  | some op => .ok (dialect.operator op)
  | none => .error (.noOperator name)

end Polyglot
