import Polyglot.Cursor
import Polyglot.Ty

/-!
# Grammar of types

    element  ::=  paren | name argument*
    argument ::=  paren | name
    paren    ::=  '(' element ('->' element)* ')'

The arguments of a name end at a token that starts a line: a signature has no other end. A
lower-case name without arguments is a variable, except that a builtin's name is a concrete type
where an element stands; as an argument it is read as a variable.
-/

namespace Polyglot.Grammar

open Polyglot.Parser

/-- Parentheses around one element only group. -/
def parenTypeWith (area : Area) (element : Parser Ty) : Parser Ty := do
  expect area (.symbol .openParen)
  let first ← element
  let rest ← manyAfter (.symbol .arrow) element
  expect area (.symbol .closeParen)
  return if rest.isEmpty then first else .func (first :: rest)

def argumentTypeWith (area : Area) (element : Parser Ty) : Parser Ty := do
  if ← sees (.symbol .openParen) then
    parenTypeWith area element
  else
    let (name, _) ← expectIdent area
    return if isUpperName name then .named name [] else .var name

/-- Whether the next token is an argument of the type before it. -/
def startsArgument (cursor : Cursor) : Bool :=
  (isIdent cursor.lexeme? || cursor.lexeme? == some (.symbol .openParen)) && !cursor.atLineStart

/-- The type that a name and its arguments make. -/
def applied (name : String) (args : List Ty) : Ty :=
  if args.isEmpty && !isUpperName name && !Ty.isBuiltin name then .var name else .named name args

def typeElementWith (area : Area) (element : Parser Ty) : Parser Ty := do
  if ← sees (.symbol .openParen) then
    parenTypeWith area element
  else
    let (name, _) ← expectIdent area
    let args ← many startsArgument (argumentTypeWith area element)
    return applied name args

def typeElement (area : Area) : Parser Ty :=
  fix (typeElementWith area)

def argumentType (area : Area) : Parser Ty :=
  argumentTypeWith area (typeElement area)

def parenType (area : Area) : Parser Ty :=
  parenTypeWith area (typeElement area)

end Polyglot.Grammar
