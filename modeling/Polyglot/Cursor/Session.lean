import Polyglot.Decl.Grammar

/-!
# Reading sessions

A session drives one cursor through a sequence of requests. A request that fails is answered with a
diagnostic, and the session goes on from where the failure left the cursor.
-/

namespace Polyglot

/-- The rules of the grammar that can be read on their own. The rules for types report to the
area they are used in. -/
inductive Rule where
  | union
  | tag
  | tagField
  | equation
  | signature
  | expr
  | cond
  | lambda
  | or
  | and
  | compare
  | sum
  | product
  | application
  | atom
  | record
  | field
  | typeElement (area : Area)
  | argumentType (area : Area)
  | parenType (area : Area)
deriving DecidableEq, Repr

/-- What a rule reads. -/
inductive Node where
  | decl (decl : Decl)
  | tag (tag : Tag)
  | binding (binding : Binding)
  | types (types : List Ty)
  | type (type : Ty)
  | expr (expr : Expr)
deriving DecidableEq, Repr

def Rule.parser : Rule → Parser Node
  | .union => do
      let union ← Grammar.union
      return .decl (.union union)
  | .tag => .tag <$> Grammar.tag
  | .tagField => .binding <$> Grammar.tagField
  | .equation => .decl <$> Grammar.equation
  | .signature => .types <$> Grammar.signature
  | .expr => .expr <$> Grammar.expr
  | .cond => .expr <$> Grammar.condWith Grammar.expr
  | .lambda => .expr <$> Grammar.lambdaWith Grammar.expr
  | .or => .expr <$> Grammar.orWith Grammar.expr
  | .and => .expr <$> Grammar.andWith Grammar.expr
  | .compare => .expr <$> Grammar.compareWith Grammar.expr
  | .sum => .expr <$> Grammar.sumWith Grammar.expr
  | .product => .expr <$> Grammar.productWith Grammar.expr
  | .application => .expr <$> Grammar.applicationWith Grammar.expr
  | .atom => .expr <$> Grammar.atomWith Grammar.expr
  | .record => do
      let fields ← Grammar.recordWith Grammar.expr
      return .expr (.record none fields)
  | .field => do
      let (name, content) ← Grammar.fieldWith Grammar.expr
      return .expr (.field name content)
  | .typeElement area => .type <$> Grammar.typeElement area
  | .argumentType area => .type <$> Grammar.argumentType area
  | .parenType area => .type <$> Grammar.parenType area

namespace Reading

inductive Request where
  | current
  | advance
  | lookAt (offset : Int)
  | reads (text : String)
  | hasClass (name : String)
  | seesIdent
  | atLineStart
  | describe
  | startsAtom
  | expect (area : Area) (text : String)
  | expectIdent (area : Area)
  | expectEnd (area : Area)
  /-- Makes a diagnostic for the cursor's place, without failing. -/
  | remark (area : Area) (text : String)
  | rule (rule : Rule)
deriving DecidableEq, Repr

inductive Reply where
  | mark (mark : Mark)
  | truth (value : Bool)
  | text (text : String)
  | nothing
  /-- The place asked for lies left of the first token. -/
  | nowhere
  | diagnostic (diagnostic : Diagnostic)
  | node (node : Node)
deriving DecidableEq, Repr

/-- The message for a place left of the first token. -/
def nowhereMessage : String := "list index out of range"

/-- Whether a mark reads as the given text. A string literal does not, whatever its body. -/
def marksText (text : String) (mark : Mark) : Bool :=
  match mark.lexeme with
  | some (.string _) => false
  | _ => mark.text == text

/-- Reads one token, or stays at the end, and tells what stood there. -/
def take : Parser Mark := fun cursor =>
  .ok cursor.mark cursor.next

def answer : Request → Parser Reply
  | .current => do return .mark (← get).mark
  | .advance => .mark <$> take
  | .lookAt offset => do
      match (← get).lookAt offset with
      | some mark => return .mark mark
      | none => return .nowhere
  | .reads text => do return .truth (marksText text (← get).mark)
  | .hasClass name => do return .truth ((← get).mark.className == name)
  | .seesIdent => do return .truth (Parser.isIdent (← get).lexeme?)
  | .atLineStart => do return .truth (← get).atLineStart
  | .describe => do return .text (Polyglot.describe (← get).lexeme?)
  | .startsAtom => do return .truth (Grammar.startsAtom (← get))
  | .expect area text => do
      if marksText text (← get).mark then .mark <$> take
      else Parser.fail area (.expected text)
  | .expectIdent area => do
      let mark := (← get).mark
      let _ ← Parser.expectIdent area
      return .mark mark
  | .expectEnd area => do
      Parser.expectEnd area
      return .nothing
  | .remark area text => do
      return .diagnostic ⟨area, .remark text, (← get).mark.pos⟩
  | .rule rule => .node <$> rule.parser

/-- The outcomes of requests made one after the other, each with the cursor it leaves. -/
def session (cursor : Cursor) : List Request → List (Except Diagnostic Reply × Cursor)
  | [] => []
  | request :: rest =>
      match answer request cursor with
      | .ok reply cursor => (.ok reply, cursor) :: session cursor rest
      | .error diagnostic cursor => (.error diagnostic, cursor) :: session cursor rest

end Reading

end Polyglot
