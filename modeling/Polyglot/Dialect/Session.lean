import Polyglot.Dialect.Decls

/-!
# Writing sessions

A session drives one renderer through a sequence of requests. A request that fails leaves the indent
counter where the failure found it, and only a request to emit a whole program sets it back.
-/

namespace Polyglot.Writing

inductive Request where
  | emit (body : List Decl)
  | decl (decl : Decl)
  | expr (expr : Expr)
  /-- An expression as an argument beside its function. -/
  | argument (expr : Expr)
  /-- An expression as the body of a function. -/
  | body (expr : Expr)
  | operand (side : Side) (child parent : Expr)
  | operator (name : String)
  | type (nested : Bool) (type : Ty)
  | ascription (type : Ty)
  | indentation
  | setIndent (count : Int)
deriving DecidableEq, Repr

/-- The text of a type, in a dialect that writes types. -/
def typeText : Dialect → Bool → Ty → Except RenderError String
  | .styled (.script .typescript), _, type => Script.typeText type
  | .styled (.surface surface), nested, type => .ok (surface.typeText nested type)
  | _, _, _ => .error .undecided

/-- What gives the type of a name, in a script. -/
def ascriptionText : Dialect → Ty → Except RenderError String
  | .styled (.script script), type => script.ascription type
  | _, _ => .error .undecided

/-- The text that a request asks for; setting the counter gives none. -/
def answer (dialect : Dialect) : Request → Render (Option String)
  | .emit body => some <$> dialect.emit body
  | .decl decl => some <$> dialect.decl decl
  | .expr expr => some <$> dialect.expr expr
  | .argument expr => some <$> dialect.argument expr
  | .body expr => some <$> dialect.body expr
  | .operand side child parent => some <$> dialect.operand side child parent.precedence
  | .operator name => do
      let text ← dialect.operatorNamed name
      return some text
  | .type nested type => do
      let text ← typeText dialect nested type
      return some text
  | .ascription type => do
      let text ← ascriptionText dialect type
      return some text
  | .indentation => some <$> Render.indentation
  | .setIndent count => do
      set count
      return none

/-- The outcomes of requests made one after the other, each with the counter it leaves. -/
def session (dialect : Dialect) (count : Int) :
    List Request → List (Except RenderError (Option String) × Int)
  | [] => []
  | request :: rest =>
      match answer dialect request count with
      | .ok text count => (.ok text, count) :: session dialect count rest
      | .error error count => (.error error, count) :: session dialect count rest

end Polyglot.Writing
