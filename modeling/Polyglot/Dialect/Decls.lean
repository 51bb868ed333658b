import Polyglot.Dialect.Exprs

/-!
# Declarations in each dialect

In the scripts a union is one factory function for each tag. Typescript adds a record type for
each tag and the union of these types. In the surface dialects a declaration is written much as
it was read.
-/

namespace Polyglot

namespace Script

/-! ## Unions -/

/-- The parameters of the union that the fields of a tag mention. -/
def tagParams (union : Union) (tag : Tag) : Except RenderError (List String) :=
  (union.tagParams tag).mapError .missing

/-- A tag's name with the type parameters that its fields mention. -/
def tagType (union : Union) (tag : Tag) : Except RenderError String := do
  let names ← tagParams union tag
  return tag.name ++ angled names

/-- The fields of a tag with their types. -/
def fieldTypes (tag : Tag) : Except RenderError (List String) :=
  tag.fields.mapM fun field => do
    let text ← typeText field.type
    return field.name ++ ": " ++ text

/-- The record type of a tag, in the script that has types. -/
def tagAlias : Script → Union → Tag → Except RenderError (Option String)
  | .javascript, _, _ => .ok none
  | .typescript, union, tag => do
      let name ← tagType union tag
      let fields ← fieldTypes tag
      let lines :=
        ["type " ++ name ++ " = \x7b",
          indentStep ++ "kind: \"" ++ tag.name ++ "\";"] ++
          fields.map (fun text => indentStep ++ text ++ ";") ++ ["\x7d;"]
      return some ("\n".intercalate lines)
  | .bare, _, _ => .error .undecided

/-- The union of the record types of all tags, in the script that has types. -/
def unionAlias : Script → Union → Except RenderError (Option String)
  | .javascript, _ => .ok none
  | .typescript, union => do
      let members ← union.tags.mapM (tagType union)
      let name ← typeText (.named union.name union.params)
      return some ("type " ++ name ++ " = " ++ " | ".intercalate members ++ ";")
  | .bare, _ => .error .undecided

def factoryParams : Script → Tag → Except RenderError String
  | .javascript, _ => .ok "args"
  | .typescript, tag => do
      let fields ← fieldTypes tag
      return if fields.isEmpty then "args: \x7b\x7d"
        else "args: \x7b " ++ ", ".intercalate fields ++ " \x7d"
  | .bare, _ => .error .undecided

def factoryReturn : Script → Union → Tag → Except RenderError String
  | .javascript, _, _ => .ok ""
  | .typescript, union, tag => do
      let name ← tagType union tag
      return ": " ++ name
  | .bare, _, _ => .error .undecided

/-- The function that makes a value of a tag from its fields. -/
def factory (script : Script) (union : Union) (tag : Tag) : Except RenderError String := do
  let names ← tagParams union tag
  let generics ← script.typeParams names
  let params ← script.factoryParams tag
  let result ← script.factoryReturn union tag
  return "\n".intercalate
    ["function " ++ tag.name ++ generics ++ "(" ++ params ++ ")" ++ result ++ " \x7b",
      indentStep ++ "return \x7b",
      indentStep ++ indentStep ++ "kind: \"" ++ tag.name ++ "\",",
      indentStep ++ indentStep ++ "...args,",
      indentStep ++ "\x7d;",
      "\x7d"]

/-- The paragraphs of a tag. -/
def tagParts (script : Script) (union : Union) (tag : Tag) : Except RenderError (List String) := do
  let alias? ← script.tagAlias union tag
  let factory ← script.factory union tag
  return alias?.toList ++ [factory]

def union (script : Script) (union : Union) : Except RenderError String := do
  let parts ← union.tags.mapM (script.tagParts union)
  let alias? ← script.unionAlias union
  return "\n\n".intercalate (parts.flatten ++ alias?.toList)

/-! ## Equations -/

/-- The parameters of a function, with their types in the script that has types. -/
def params (script : Script) (bindings : List Binding) : Except RenderError String := do
  let texts ← bindings.mapM fun binding => do
    let ascription ← script.ascription binding.type
    return binding.name ++ ascription
  return ", ".intercalate texts

/-- The first line of a function. -/
def header (script : Script) (equation : Equation) : Except RenderError String := do
  let generics ← script.typeParams (Ty.parameters equation.signature)
  let params ← script.params equation.params
  let result ← script.ascription equation.result
  return "function " ++ equation.name ++ generics ++ "(" ++ params ++ ")" ++ result ++ " \x7b"

def function (script : Script) (equation : Equation) : Render String := do
  let header ← script.header equation
  let body ← Render.indented (Dialect.body (.styled (.script script)) equation.body)
  let indent ← Render.indentation
  return header ++ "\n" ++ body ++ "\n" ++ indent ++ "\x7d"

def const (script : Script) (equation : Equation) : Render String := do
  let body ← Dialect.expr (.styled (.script script)) equation.body
  let ascription ← script.ascription equation.result
  return "const " ++ equation.name ++ ascription ++ " = " ++ body ++ ";"

end Script

namespace Surface

/-! ## Surface declarations -/

/-- What stands between a name and its type. -/
def typeMark : Surface → String
  | .elm => " : "
  | _ => ": "

def tagText (surface : Surface) (tag : Tag) : String :=
  if tag.fields.isEmpty then tag.name
  else
    tag.name ++ " \x7b " ++
      ", ".intercalate
        (tag.fields.map fun field =>
          field.name ++ surface.typeMark ++ surface.typeText false field.type) ++ " \x7d"

/-- The text of the union's own type. -/
def unionType (surface : Surface) (union : Union) : String :=
  surface.typeText false (.named union.name union.params)

/-- The lines of a union up to its first tag. -/
def unionHead (surface : Surface) (union : Union) (first : Tag) :
    Except RenderError (List String) :=
  match surface with
  | .derw => .ok ["type " ++ surface.unionType union ++ " =", indentStep ++ surface.tagText first]
  | .elm => .ok ["type " ++ surface.unionType union, indentStep ++ "= " ++ surface.tagText first]
  | .bare => .error .undecided

def union (surface : Surface) (union : Union) : Except RenderError String :=
  match union.tags with
  | [] => .error (if surface = .bare then .undecided else .noTag)
  | first :: rest => do
      let head ← surface.unionHead union first
      let tail := rest.map fun tag => indentStep ++ "| " ++ surface.tagText tag
      return "\n".intercalate (head ++ tail)

def signatureLine (surface : Surface) (name : String) (types : List Ty) : String :=
  name ++ surface.typeMark ++ " -> ".intercalate (surface.typeTexts false types)

/-- A signature line, an equation line and the body below it. -/
def equation (surface : Surface) (signature head : String) (body : Expr) : Render String := do
  let text ← Render.indented (Dialect.body (.styled (.surface surface)) body)
  return signature ++ "\n" ++ head ++ "\n" ++ text

def function (surface : Surface) (equation : Equation) : Render String :=
  surface.equation (surface.signatureLine equation.name equation.signature)
    (equation.name ++ " " ++ " ".intercalate (equation.params.map Binding.name) ++ " =")
    equation.body

/-- The types on the signature line of a constant: a function type is written without its
parentheses. -/
def constTypes : Ty → List Ty
  | .func parts => parts
  | ty => [ty]

def const (surface : Surface) (equation : Equation) : Render String :=
  surface.equation (surface.signatureLine equation.name (constTypes equation.result))
    (equation.name ++ " =") equation.body

end Surface

namespace Dialect

def decl (dialect : Dialect) : Decl → Render String
  | .union union => do
      match ← dialect.style with
      | .script script => script.union union
      | .surface surface => surface.union union
  | .function equation => do
      match ← dialect.style with
      | .script script => script.function equation
      | .surface surface => surface.function equation
  | .const equation => do
      match ← dialect.style with
      | .script script => script.const equation
      | .surface surface => surface.const equation
  | .unknown node => throw (.unknownDecl node.kind)

def decls (dialect : Dialect) : List Decl → Render (List String)
  | [] => return []
  | decl :: rest => do
      let text ← dialect.decl decl
      let texts ← decls dialect rest
      return text :: texts

/-- All declarations, from the left margin on, with a blank line between them. -/
def emit (dialect : Dialect) (body : List Decl) : Render String := do
  set (0 : Int)
  let texts ← dialect.decls body
  return "\n\n".intercalate texts

end Dialect

end Polyglot
