import Polyglot.Diagnostic

/-!
# Reading tokens

A cursor stands between the tokens that were read and those still to come. A parser moves the
cursor to the right, and a parser that fails leaves it where the failure was noticed.

Grammars are recursive. `Parser.fix` ties the knot: the parser it is given to use in its own
place is good for as many nested uses as tokens are left, so a grammar that reads a token before
it comes back to itself never notices the bound.
-/

namespace Polyglot

/-! ## Cursors -/

structure Cursor where
  /-- The tokens already read, the last one first. -/
  past : List Token
  /-- The tokens still to come. -/
  rest : List Token
  /-- Where the text ends. -/
  finish : Position
deriving DecidableEq, Repr

namespace Cursor

def ofScan (scan : Scan) : Cursor :=
  ⟨[], scan.tokens, scan.finish⟩

/-- All tokens, read or not. -/
def tokens (cursor : Cursor) : List Token :=
  cursor.past.reverse ++ cursor.rest

/-- The number of tokens read. -/
def index (cursor : Cursor) : Nat :=
  cursor.past.length

/-- What stands right of the cursor. -/
def mark (cursor : Cursor) : Mark :=
  match cursor.rest with
  | [] => ⟨none, cursor.finish⟩
  | token :: _ => token.mark

def lexeme? (cursor : Cursor) : Option Lexeme :=
  cursor.mark.lexeme

/-- One token further. The end stays the end. -/
def next (cursor : Cursor) : Cursor :=
  match cursor.rest with
  | [] => cursor
  | token :: rest => ⟨token :: cursor.past, rest, cursor.finish⟩

/-- Whether the next token is the first one of a line, and not the first one of all. -/
def atLineStart (cursor : Cursor) : Bool :=
  match cursor.rest with
  | [] => false
  | token :: _ => token.pos.col == 1 && !cursor.past.isEmpty

/-- The mark `offset` places away. Right of the end stands the end. Left of the first token the
marks start over from the end, once; there is nothing further left. -/
def lookAt (cursor : Cursor) (offset : Int) : Option Mark :=
  let marks := cursor.tokens.map Token.mark ++ [⟨none, cursor.finish⟩]
  let place : Int := cursor.index + offset
  if place < 0 then
    if place + marks.length < 0 then none else marks[(place + marks.length).toNat]?
  else
    marks[min place.toNat (marks.length - 1)]?

theorem index_le_length_tokens (cursor : Cursor) : cursor.index ≤ cursor.tokens.length := by
  simp [index, tokens]

end Cursor

/-! ## Parsers -/

abbrev Parser := EStateM Diagnostic Cursor

namespace Parser

variable {α : Type}

/-- The outcome of a parser, without the cursor. -/
def outcome (parser : Parser α) (cursor : Cursor) : Except Diagnostic α :=
  match parser cursor with
  | .ok value _ => .ok value
  | .error diagnostic _ => .error diagnostic

/-- Fails at the cursor, with a problem that names what stands there. -/
def fail (area : Area) (problem : Option Lexeme → Problem) : Parser α := fun cursor =>
  .error ⟨area, problem cursor.lexeme?, cursor.mark.pos⟩ cursor

def peek : Parser (Option Lexeme) := fun cursor =>
  .ok cursor.lexeme? cursor

def advance : Parser Unit := fun cursor =>
  .ok () cursor.next

def sees (lexeme : Lexeme) : Parser Bool := fun cursor =>
  .ok (cursor.lexeme? == some lexeme) cursor

/-- Reads the given lexeme. -/
def expect (area : Area) (lexeme : Lexeme) : Parser Unit := do
  if ← sees lexeme then advance else fail area (.expected lexeme.text)

/-- Reads a name, and tells where it stood. -/
def expectIdent (area : Area) : Parser (String × Position) := fun cursor =>
  match cursor.rest with
  | ⟨.ident name, pos⟩ :: _ => .ok (name, pos) cursor.next
  | _ => fail area .expectedIdent cursor

/-- Succeeds where no token is left. -/
def expectEnd (area : Area) : Parser Unit := fun cursor =>
  match cursor.rest with
  | [] => .ok () cursor
  | _ => fail area .unexpected cursor

/-! ## Repetition -/

/-- Calls `body` with itself, `depth` calls deep. -/
def iterate (body : Parser α → Parser α) : Nat → Parser α
  | 0, cursor => fail .general (fun _ => .stalled) cursor
  | depth + 1, cursor => body (iterate body depth) cursor

/-- The parser that `body` describes in terms of itself. -/
def fix (body : Parser α → Parser α) : Parser α := fun cursor =>
  iterate body (cursor.rest.length + 1) cursor

/-- Reads an item as long as the cursor's place calls for one. -/
def many (continues : Cursor → Bool) (item : Parser α) : Parser (List α) :=
  fix fun more => do
    if continues (← get) then
      let first ← item
      let rest ← more
      return first :: rest
    else
      return []

/-- Reads an item after each `separator`. -/
def manyAfter (separator : Lexeme) (item : Parser α) : Parser (List α) :=
  many (fun cursor => cursor.lexeme? == some separator) do
    advance
    item

/-- Reads items between commas, possibly none, and the symbol that closes them. -/
def enclosed (area : Area) (close : Symbol) (item : Parser α) : Parser (List α) := do
  if ← sees (.symbol close) then
    advance
    return []
  else
    let first ← item
    let rest ← manyAfter (.symbol .comma) item
    expect area (.symbol close)
    return first :: rest

def isIdent : Option Lexeme → Bool
  | some (.ident _) => true
  | _ => false

/-- Reads names as long as there are any. -/
def names (area : Area) : Parser (List String) :=
  many (fun cursor => isIdent cursor.lexeme?) do
    let (name, _) ← expectIdent area
    return name

end Parser

end Polyglot
