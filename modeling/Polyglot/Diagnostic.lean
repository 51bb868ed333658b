import Polyglot.Token

/-!
# Diagnostics

What can be wrong with the text of a declaration. A diagnostic names the part of the language
that was being read, the cause, and the place; the wording stands in `Problem.text` alone.
-/

namespace Polyglot

/-- The part of the language that a diagnostic speaks of. -/
inductive Area where
  /-- The characters, before any token. -/
  | lexical
  /-- The form of a block: no declaration starts this way. -/
  | block
  | union
  | signature
  | expression
  /-- No part in particular. -/
  | general
deriving DecidableEq, Repr

inductive Problem where
  | unexpectedChar (found : Char)
  | unterminatedString
  | invalidEscape
  | expected (text : String) (found : Option Lexeme)
  | expectedIdent (found : Option Lexeme)
  | expectedFieldColon (field : String) (found : Option Lexeme)
  | expectedEquation (found : Option Lexeme)
  | expectedExpr (found : Option Lexeme)
  | unexpected (found : Option Lexeme)
  | lowerTypeName (name : String)
  | lowerTagName (name : String)
  /-- The equation after the signature of `declared` defines `defined`. -/
  | equationFor (declared defined : String)
  | argumentCount (name : String) (taken declared : Nat)
  | emptyBlock
  | unknownBlock
  /-- A remark made from outside the grammar. -/
  | remark (text : String)
  /-- Reading went round without consuming a token. No grammar of this library does that. -/
  | stalled
deriving DecidableEq, Repr

/-- How a message names what it found. -/
def describe : Option Lexeme → String
  | none => "end of block"
  | some (.string body) => "string \"" ++ body ++ "\""
  | some lexeme => "'" ++ lexeme.text ++ "'"

def Problem.text : Problem → String
  | .unexpectedChar found => "unexpected character: " ++ Text.quoted (String.singleton found)
  | .unterminatedString => "unterminated string literal"
  | .invalidEscape => "invalid escape in string"
  | .expected text found => "expected '" ++ text ++ "', got " ++ describe found
  | .expectedIdent found => "expected identifier, got " ++ describe found
  | .expectedFieldColon field found =>
      "expected ':' after field '" ++ field ++ "', got " ++ describe found
  | .expectedEquation found =>
      "expected an equation on the line after the signature, got " ++ describe found
  | .expectedExpr found => "expected expression, got " ++ describe found
  | .unexpected found => "unexpected " ++ describe found
  | .lowerTypeName name => "type name '" ++ name ++ "' must start with an uppercase letter"
  | .lowerTagName name => "tag name '" ++ name ++ "' must start with an uppercase letter"
  | .equationFor declared defined =>
      "signature for '" ++ declared ++ "' is followed by an equation for '" ++ defined ++ "'"
  | .argumentCount name taken declared =>
      "'" ++ name ++ "' takes " ++ toString taken ++ " arguments but its signature gives " ++
        toString declared
  | .emptyBlock => "Unknown block type: empty block"
  | .unknownBlock => "Unknown block type"
  | .remark text => text
  | .stalled => "reading stalled"

structure Diagnostic where
  area : Area
  problem : Problem
  pos : Position
deriving DecidableEq, Repr

def Diagnostic.message (diagnostic : Diagnostic) : String :=
  diagnostic.problem.text ++ " at line " ++ toString diagnostic.pos.line ++ " col " ++
    toString diagnostic.pos.col

end Polyglot
