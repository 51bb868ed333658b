import Polyglot.Cursor
import Polyglot.Expr
import Polyglot.Token.Scan

/-!
# Grammar of expressions

    expr        ::=  'if' expr 'then' expr 'else' expr  |  '\' name+ '->' expr  |  or
    or          ::=  and ('||' or)?
    and         ::=  compare ('&&' and)?
    compare     ::=  sum (('==' | '!=' | '<' | '<=' | '>' | '>=') sum)?
    sum         ::=  product (('+' | '-') sum)?
    product     ::=  application (('*' | '/') product)?
    application ::=  Upper record?  |  lower atom*  |  atom
    atom        ::=  number | string | name | '-' number | '(' expr ')' | list | record
    list        ::=  '[' (expr (',' expr)*)? ']'
    record      ::=  '{' (field (',' field)*)? '}'
    field       ::=  name ':' expr

Each rule is a parser that takes the parser of `expr` as an argument; the argument is used only
after a token was read.
-/

namespace Polyglot.Grammar

open Polyglot.Parser

/-! ## Atoms -/

/-- What a name on its own denotes: a tag without fields, or a value. -/
def nameExpr (name : String) : Expr :=
  if isUpperName name then .construct name none [] else .value name

def fieldWith (expr : Parser Expr) : Parser (String × Expr) := do
  let (name, _) ← expectIdent .expression
  expect .expression (.symbol .colon)
  let content ← expr
  return (name, content)

def recordWith (expr : Parser Expr) : Parser (List (String × Expr)) := do
  expect .expression (.symbol .openBrace)
  enclosed .expression .closeBrace (fieldWith expr)

/-- The digits of a number after the next token. -/
def secondNumber? (cursor : Cursor) : Option String :=
  match cursor.rest with
  | _ :: ⟨.number digits, _⟩ :: _ => some digits
  | _ => none

/-- A hyphen belongs to the number that follows it. -/
def negativeNumber : Parser Expr := do
  match secondNumber? (← get) with
  | some digits =>
      advance
      advance
      return .value ("-" ++ digits)
  | none => fail .expression .expectedExpr

def atomWith (expr : Parser Expr) : Parser Expr := do
  match ← peek with
  | some (.number digits) =>
      advance
      return .value digits
  | some (.string body) =>
      advance
      return .str body
  | some (.ident name) =>
      advance
      return nameExpr name
  | some (.symbol .minus) => negativeNumber
  | some (.symbol .openParen) =>
      advance
      let inner ← expr
      expect .expression (.symbol .closeParen)
      return inner
  | some (.symbol .openBracket) =>
      advance
      let items ← enclosed .expression .closeBracket expr
      return .list items
  | some (.symbol .openBrace) =>
      let fields ← recordWith expr
      return .record none fields
  | _ => fail .expression .expectedExpr

/-- Whether the next token starts an argument of the name before it. -/
def startsAtom (cursor : Cursor) : Bool :=
  match cursor.lexeme? with
  | some (.number _) | some (.string _) | some (.ident _) => true
  | some (.symbol .openParen) | some (.symbol .openBracket) | some (.symbol .openBrace) => true
  | _ => false

/-! ## Applications -/

/-- The call that a name and its arguments make. -/
def appliedExpr (name : String) (args : List Expr) : Expr :=
  if args.isEmpty then .value name else .call name args

def applicationWith (expr : Parser Expr) : Parser Expr := do
  match ← peek with
  | some (.ident name) =>
      advance
      if isUpperName name then
        if ← sees (.symbol .openBrace) then
          let fields ← recordWith expr
          return .construct name none fields
        else
          return .construct name none []
      else
        let args ← many startsAtom (atomWith expr)
        return appliedExpr name args
  | _ => atomWith expr

/-! ## Operators -/

def productOp? : Option Lexeme → Option BinaryOp
  | some (.symbol .star) => some .mul
  | some (.symbol .slash) => some .div
  | _ => none

def sumOp? : Option Lexeme → Option BinaryOp
  | some (.symbol .plus) => some .add
  | some (.symbol .minus) => some .sub
  | _ => none

def compareOp? : Option Lexeme → Option BinaryOp
  | some (.symbol .equalEqual) => some .eq
  | some (.symbol .notEqual) => some .ne
  | some (.symbol .less) => some .lt
  | some (.symbol .lessEq) => some .le
  | some (.symbol .greater) => some .gt
  | some (.symbol .greaterEq) => some .ge
  | _ => none

def andOp? : Option Lexeme → Option BinaryOp
  | some (.symbol .andAnd) => some .and
  | _ => none

def orOp? : Option Lexeme → Option BinaryOp
  | some (.symbol .barBar) => some .or
  | _ => none

/-- An operand, and after an operator whatever `right` reads. -/
def operation (op? : Option Lexeme → Option BinaryOp) (left right : Parser Expr) : Parser Expr := do
  let first ← left
  match op? (← peek) with
  | some op =>
      advance
      let second ← right
      return .binary op first second
  | none => return first

/-- Operands joined by the operators of one level, nested to the right. -/
def chain (op? : Option Lexeme → Option BinaryOp) (operand : Parser Expr) : Parser Expr :=
  fix fun more => operation op? operand more

def productWith (expr : Parser Expr) : Parser Expr :=
  chain productOp? (applicationWith expr)

def sumWith (expr : Parser Expr) : Parser Expr :=
  chain sumOp? (productWith expr)

/-- Comparisons do not chain. -/
def compareWith (expr : Parser Expr) : Parser Expr :=
  operation compareOp? (sumWith expr) (sumWith expr)

def andWith (expr : Parser Expr) : Parser Expr :=
  chain andOp? (compareWith expr)

def orWith (expr : Parser Expr) : Parser Expr :=
  chain orOp? (andWith expr)

/-! ## Whole expressions -/

def condWith (expr : Parser Expr) : Parser Expr := do
  expect .expression (.keyword .ifWord)
  let test ← expr
  expect .expression (.keyword .thenWord)
  let yes ← expr
  expect .expression (.keyword .elseWord)
  let no ← expr
  return .cond test yes no

def lambdaWith (expr : Parser Expr) : Parser Expr := do
  expect .expression (.symbol .backslash)
  let (first, _) ← expectIdent .expression
  let rest ← names .expression
  expect .expression (.symbol .arrow)
  let body ← expr
  return .lambda (first :: rest) body

def exprWith (expr : Parser Expr) : Parser Expr := do
  match ← peek with
  | some (.keyword .ifWord) => condWith expr
  | some (.symbol .backslash) => lambdaWith expr
  | _ => orWith expr

def expr : Parser Expr :=
  fix exprWith

end Polyglot.Grammar

namespace Polyglot.Expr

/-- Reads a text that holds one expression. -/
def ofText (text : String) : Except Diagnostic Expr := do
  let tokens ← scan text 1
  Parser.outcome
    (do
      let expr ← Grammar.expr
      Parser.expectEnd .expression
      return expr)
    (Cursor.ofScan tokens)

end Polyglot.Expr
