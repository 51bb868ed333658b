import Polyglot.Decl
import Polyglot.Expr.Grammar
import Polyglot.Ty.Grammar

/-!
# Grammar of declarations

    union     ::=  'type' Upper name* '=' '|'? tag ('|' tag)*
    tag       ::=  Upper ('{' (field (',' field)*)? '}')?
    field     ::=  name ':' element
    equation  ::=  signature? name name* '=' expr
    signature ::=  name ':' element ('->' element)*

The equation after a signature starts a line and defines the name that the signature declares.
-/

namespace Polyglot.Grammar

open Polyglot.Parser

/-! ## Unions -/

def tagField : Parser Binding := do
  let (name, _) ← expectIdent .union
  if ← sees (.symbol .colon) then
    advance
    let type ← typeElement .union
    return ⟨name, type⟩
  else
    fail .union (.expectedFieldColon name)

/-- Reads a name that has to start with an upper-case letter. -/
def upperName (problem : String → Problem) : Parser String := do
  let (name, pos) ← expectIdent .union
  if isUpperName name then return name else throw ⟨.union, problem name, pos⟩

def tag : Parser Tag := do
  let name ← upperName .lowerTagName
  if ← sees (.symbol .openBrace) then
    advance
    let fields ← enclosed .union .closeBrace tagField
    return ⟨name, fields⟩
  else
    return ⟨name, []⟩

def union : Parser Union := do
  expect .union (.keyword .typeWord)
  let name ← upperName .lowerTypeName
  let params ← names .union
  expect .union (.symbol .equals)
  if ← sees (.symbol .bar) then advance
  let first ← tag
  let rest ← manyAfter (.symbol .bar) tag
  expectEnd .union
  return ⟨name, params.map .var, first :: rest⟩

/-! ## Equations -/

def signature : Parser (List Ty) := do
  let _ ← expectIdent .signature
  expect .signature (.symbol .colon)
  let first ← typeElement .signature
  let rest ← manyAfter (.symbol .arrow) (typeElement .signature)
  if (← get).atLineStart then
    return first :: rest
  else
    fail .signature .expectedEquation

/-- The name of a signature that starts here: a name, and then a token that reads as a colon. -/
def signatureName? (cursor : Cursor) : Option String :=
  match cursor.rest with
  | ⟨.ident name, _⟩ :: second :: _ => if second.lexeme.text = ":" then some name else none
  | _ => none

/-- Gives each parameter its type and the last type to the result, if there are as many as that. -/
def assignTypes : List String → List Ty → Option (List Binding × Ty)
  | [], [result] => some ([], result)
  | param :: params, type :: types =>
      (assignTypes params types).map fun (bindings, result) => (⟨param, type⟩ :: bindings, result)
  | _, _ => none

/-- The types of an equation with `count` parameters. Where there are none, several types make one
function type. -/
def equationTypes (count : Nat) (types : List Ty) : List Ty :=
  if count = 0 ∧ 1 < types.length then [.func types] else types

/-- The declaration that an equation makes: one without parameters is a constant. -/
def declaration (equation : Equation) : Decl :=
  if equation.params.isEmpty then .const equation else .function equation

/-- Joins an equation with its signature. Without one, every type is `any`. -/
def declare (declared : Option (String × List Ty)) (name : String) (pos : Position)
    (params : List String) (body : Expr) : Except Diagnostic Decl :=
  match declared with
  | none => .ok (declaration ⟨name, params.map fun param => ⟨param, .any⟩, .any, body⟩)
  | some (signed, types) =>
      if signed ≠ name then
        .error ⟨.signature, .equationFor signed name, pos⟩
      else
        let types := equationTypes params.length types
        match assignTypes params types with
        | some (bindings, result) => .ok (declaration ⟨name, bindings, result, body⟩)
        | none => .error ⟨.signature, .argumentCount name params.length (types.length - 1), pos⟩

def equation : Parser Decl := do
  let declared ←
    match signatureName? (← get) with
    | some name => do
        let types ← signature
        pure (some (name, types))
    | none => pure none
  let (name, pos) ← expectIdent .signature
  let params ← names .signature
  expect .signature (.symbol .equals)
  let body ← expr
  expectEnd .expression
  match declare declared name pos params body with
  | .ok decl => return decl
  | .error diagnostic => throw diagnostic

end Polyglot.Grammar
