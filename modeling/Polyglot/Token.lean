import Polyglot.Text.Quoted

/-!
# Tokens

A lexeme is a word, a literal or a symbol of the source language; a token is a lexeme and the
place where it starts. The end of a text is no token: reading looks at a `Mark`, which is a
token or the end.
-/

namespace Polyglot

/-- A place in a text. Lines count from the number given to the first line, columns count characters
from 1. -/
structure Position where
  line : Int
  col : Nat
deriving DecidableEq, Repr

/-! ## Lexemes -/

/-- The words that cannot be names. -/
inductive Keyword where
  | ifWord
  | thenWord
  | elseWord
  | typeWord
deriving DecidableEq, Repr

def Keyword.spelling : Keyword → String
  | .ifWord => "if"
  | .thenWord => "then"
  | .elseWord => "else"
  | .typeWord => "type"

inductive Symbol where
  | arrow
  | andAnd
  | barBar
  | lessEq
  | greaterEq
  | equalEqual
  | notEqual
  | plus
  | minus
  | star
  | slash
  | less
  | greater
  | equals
  | backslash
  | bar
  | openParen
  | closeParen
  | openBracket
  | closeBracket
  | openBrace
  | closeBrace
  | comma
  | colon
deriving DecidableEq, Repr

def Symbol.spelling : Symbol → String
  | .arrow => "->"
  | .andAnd => "&&"
  | .barBar => "||"
  | .lessEq => "<="
  | .greaterEq => ">="
  | .equalEqual => "=="
  | .notEqual => "!="
  | .plus => "+"
  | .minus => "-"
  | .star => "*"
  | .slash => "/"
  | .less => "<"
  | .greater => ">"
  | .equals => "="
  | .backslash => "\\"
  | .bar => "|"
  | .openParen => "("
  | .closeParen => ")"
  | .openBracket => "["
  | .closeBracket => "]"
  | .openBrace => "\x7b"
  | .closeBrace => "\x7d"
  | .comma => ","
  | .colon => ":"

inductive Lexeme where
  /-- A number literal, kept as written. -/
  | number (digits : String)
  /-- A string literal: the text between the quotes, escapes kept as written. -/
  | string (body : String)
  | ident (name : String)
  | keyword (word : Keyword)
  | symbol (sign : Symbol)
deriving DecidableEq, Repr

namespace Lexeme

/-- The name of a lexeme's class. Every keyword is a class of its own. -/
def className : Lexeme → String
  | .number _ => "NUMBER"
  | .string _ => "STRING"
  | .ident _ => "IDENT"
  | .keyword word => word.spelling
  | .symbol _ => "OP"

/-- The text of a lexeme, without the quotes of a string literal. -/
def text : Lexeme → String
  | .number digits => digits
  | .string body => body
  | .ident name => name
  | .keyword word => word.spelling
  | .symbol sign => sign.spelling

/-- The lexeme as it stands in the source. -/
def spelling : Lexeme → String
  | .string body => "\"" ++ body ++ "\""
  | lexeme => lexeme.text

end Lexeme

/-- A name that starts with an upper-case ASCII letter: the name of a type or a tag. -/
def isUpperName (name : String) : Bool :=
  match name.toList with
  | [] => false
  | c :: _ => c.isUpper

/-! ## Tokens and marks -/

structure Token where
  lexeme : Lexeme
  pos : Position
deriving DecidableEq, Repr

/-- What stands at a place of a text: a lexeme, or nothing more. -/
structure Mark where
  lexeme : Option Lexeme
  pos : Position
deriving DecidableEq, Repr

def Token.mark (token : Token) : Mark :=
  ⟨some token.lexeme, token.pos⟩

namespace Mark

def className (mark : Mark) : String :=
  (mark.lexeme.map Lexeme.className).getD "EOF"

def text (mark : Mark) : String :=
  (mark.lexeme.map Lexeme.text).getD ""

/-- One-line account of a mark: class, quoted text, line and column. -/
def display (mark : Mark) : String :=
  "Token(" ++ mark.className ++ ", " ++ Text.quoted mark.text ++ ", " ++ toString mark.pos.line ++
    ", " ++ toString mark.pos.col ++ ")"

end Mark

/-- A text cut into tokens, with the place where it ends. -/
structure Scan where
  tokens : List Token
  finish : Position
deriving DecidableEq, Repr

/-- The tokens of a scan, then the end of the text. -/
def Scan.marks (scan : Scan) : List Mark :=
  scan.tokens.map Token.mark ++ [⟨none, scan.finish⟩]

end Polyglot
