import Polyglot.Dialect.Types

/-!
# Expressions in each dialect

One walk over the expression serves every dialect; the dialect decides how the texts of the
parts are put together. An expression stands inside a line, or on lines of its own as the body
of a function or the branch of such a body.
-/

namespace Polyglot

/-! ## Putting parts together -/

namespace Style

/-- What stands between the name of a field and its content. -/
def fieldMark : Style → String
  | .surface .elm => " = "
  | _ => ": "

def list : Style → List String → String
  | .surface .elm, [] => "[]"
  | _, [] => "[ ]"
  | _, texts => "[ " ++ ", ".intercalate texts ++ " ]"

/-- A record, from the texts of its fields. -/
def record : Style → List String → String
  | .surface .elm, [] => "\x7b\x7d"
  | _, [] => "\x7b \x7d"
  | _, texts => "\x7b " ++ ", ".intercalate texts ++ " \x7d"

def field (style : Style) (name text : String) : String :=
  name ++ style.fieldMark ++ text

/-- A conditional inside a line. -/
def conditional : Style → (test yes no : String) → String
  | .script _, test, yes, no => "(" ++ test ++ " ? " ++ yes ++ " : " ++ no ++ ")"
  | .surface _, test, yes, no => "(if " ++ test ++ " then " ++ yes ++ " else " ++ no ++ ")"

/-- A tag applied to a record, from the texts of the fields. -/
def construct : Style → String → List String → String
  | .surface _, tag, [] => tag
  | .surface member, tag, texts => tag ++ " " ++ record (.surface member) texts
  | .script member, tag, texts => tag ++ "(" ++ record (.script member) texts ++ ")"

/-- A call, from the arguments and their texts. -/
def call : Style → String → List Expr → List String → String
  | .script _, name, _, texts => name ++ "(" ++ ", ".intercalate texts ++ ")"
  | .surface _, name, args, texts =>
      " ".intercalate
        (name :: args.zipWith (fun arg text => parenthesized arg.needsArgumentParens text) texts)

/-- A text that is a whole body: scripts return it. -/
def statement : Style → (indent text : String) → String
  | .script _, indent, text => indent ++ "return " ++ text ++ ";"
  | .surface _, indent, text => indent ++ text

end Style

namespace Surface

/-- What stands between the first branch of a conditional and the line of the second. -/
def elseGap : Surface → Except RenderError String
  | .derw => .ok ""
  | .elm => .ok "\n"
  | .bare => .error .undecided

def lambdaText (params : List String) (body : String) : String :=
  "\\" ++ " ".intercalate params ++ " -> " ++ body

end Surface

namespace Style

/-- A conditional on lines of its own. -/
def branches : Style → (indent test yes no : String) → Except RenderError String
  | .script _, indent, test, yes, no =>
      .ok (indent ++ "if (" ++ test ++ ") \x7b\n" ++ yes ++ "\n" ++ indent ++ "\x7d else \x7b\n" ++
        no ++ "\n" ++ indent ++ "\x7d")
  | .surface member, indent, test, yes, no => do
      let gap ← member.elseGap
      return indent ++ "if " ++ test ++ " then\n" ++ yes ++ gap ++ "\n" ++ indent ++ "else\n" ++ no

end Style

namespace Script

/-- A parameter of a lambda: its type is not known. -/
def lambdaParam : Script → String → Except RenderError String
  | .javascript, name => .ok name
  | .typescript, name => .ok (name ++ ": any")
  | .bare, _ => .error .undecided

def lambdaParams (script : Script) (params : List String) : Except RenderError String := do
  let texts ← params.mapM script.lambdaParam
  return ", ".intercalate texts

end Script

/-! ## Operands -/

/-- Which operand of an operation. -/
inductive Side where
  | left
  | right
deriving DecidableEq, Repr

/-- Whether an operand that binds with `child` needs parentheses below an operation that binds
with `parent`. Chains of one precedence nest to the right and are written in source order, so of
two operands that bind alike only the left one needs them. -/
def needsParens (side : Side) (child parent : Nat) : Bool :=
  if child = parent then side = .left else child < parent

/-- The text of an operand below an operation that binds with `parent`. -/
def operandText (side : Side) (child : Expr) (parent : Nat) (text : String) : String :=
  parenthesized (needsParens side child.precedence parent) text

/-! ## The walk -/

/-- Where an expression stands. -/
inductive Slot where
  | inline
  | ownLines
deriving DecidableEq, Repr

namespace Dialect

/-- Puts an expression that fits into a line where `slot` says. -/
def place (dialect : Dialect) (slot : Slot) (part : Render String) : Render String :=
  match slot with
  | .inline => part
  | .ownLines => do
      let style ← dialect.style
      let indent ← Render.indentation
      let text ← part
      return style.statement indent text

mutual

def render (dialect : Dialect) (slot : Slot) : Expr → Render String
  | .value body => dialect.place slot (pure (dialect.word body))
  | .str body => dialect.place slot (pure ("\"" ++ body ++ "\""))
  | .list items => dialect.place slot do
      let style ← dialect.style
      let texts ← renderAll dialect items
      return style.list texts
  | .record _ fields => dialect.place slot do
      let style ← dialect.style
      let texts ← renderFields dialect fields
      return style.record texts
  | .field name content => dialect.place slot do
      let style ← dialect.style
      let text ← render dialect .inline content
      return style.field name text
  | .cond test yes no => do
      let style ← dialect.style
      match slot with
      | .inline => do
          let test ← render dialect .inline test
          let yes ← render dialect .inline yes
          let no ← render dialect .inline no
          return style.conditional test yes no
      | .ownLines => do
          let indent ← Render.indentation
          let test ← render dialect .inline test
          let (yes, no) ← Render.indented do
            let yes ← render dialect .ownLines yes
            let no ← render dialect .ownLines no
            return (yes, no)
          style.branches indent test yes no
  | .lambda params body => do
      let style ← dialect.style
      match style, slot with
      | .script script, slot => dialect.place slot do
          let params ← script.lambdaParams params
          let body ← Render.indented (render dialect .ownLines body)
          let indent ← Render.indentation
          return "function(" ++ params ++ ") \x7b\n" ++ body ++ "\n" ++ indent ++ "\x7d"
      | .surface _, .inline => do
          let body ← render dialect .inline body
          return "(" ++ Surface.lambdaText params body ++ ")"
      | .surface _, .ownLines => do
          let indent ← Render.indentation
          let body ← render dialect .inline body
          return indent ++ Surface.lambdaText params body
  | .construct tag _ fields => dialect.place slot do
      let style ← dialect.style
      let texts ← renderFields dialect fields
      return style.construct tag texts
  | .call name args => dialect.place slot do
      let style ← dialect.style
      let texts ← renderAll dialect args
      return style.call name args texts
  | .binary op left right => dialect.place slot do
      let leftText ← render dialect .inline left
      let rightText ← render dialect .inline right
      return operandText .left left op.precedence leftText ++ " " ++ dialect.operator op ++ " " ++
        operandText .right right op.precedence rightText
  | .unknown kind => throw (.unknownExpr kind)

def renderAll (dialect : Dialect) : List Expr → Render (List String)
  | [] => return []
  | expr :: rest => do
      let text ← render dialect .inline expr
      let texts ← renderAll dialect rest
      return text :: texts

def renderFields (dialect : Dialect) : List (String × Expr) → Render (List String)
  | [] => return []
  | (name, content) :: rest => do
      let style ← dialect.style
      let text ← render dialect .inline content
      let texts ← renderFields dialect rest
      return style.field name text :: texts

end

/-- An expression inside a line. -/
def expr (dialect : Dialect) (expr : Expr) : Render String :=
  dialect.render .inline expr

/-- An expression as the body of a function. -/
def body (dialect : Dialect) (expr : Expr) : Render String :=
  dialect.render .ownLines expr

/-- An expression as an operand below an operation that binds with `parent`. -/
def operand (dialect : Dialect) (side : Side) (child : Expr) (parent : Nat) : Render String := do
  let text ← dialect.expr child
  return operandText side child parent text

/-- An expression as an argument that stands beside its function. -/
def argument (dialect : Dialect) (arg : Expr) : Render String := do
  let text ← dialect.expr arg
  return parenthesized arg.needsArgumentParens text

end Dialect

end Polyglot
