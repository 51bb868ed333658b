import Polyglot.Block
import Polyglot.Decl.Grammar

/-!
# Reading a block

The heading lines decide whether a block is read as a union or as an equation. The hint that a block
carries is not consulted: the form is taken from the text.
-/

namespace Polyglot.Block

/-- The form of a block's text. -/
def formOf (text : String) (line : Int) : Except Diagnostic Form :=
  Heading.classify line (Text.lines text)

/-- The grammar for a form. -/
def grammar : Form → Parser Decl
  | .union => do
      let union ← Grammar.union
      return .union union
  | .function | .const => Grammar.equation

/-- Reads the declaration of a block. Positions count lines from one. -/
def read (block : Block) : Except Diagnostic Decl := do
  let form ← formOf block.text (block.start + 1)
  let tokens ← scan block.text (block.start + 1)
  (grammar form).outcome (Cursor.ofScan tokens)

end Polyglot.Block
