import Polyglot.Block.Reading
import Polyglot.Scope

/-!
# Programs

A program is what a module text holds: the declarations that could be read, in source order, and one
error for each block that could not be read or does not resolve. Reading never fails as a whole.
-/

namespace Polyglot

structure Program where
  name : String
  body : List Decl
  errors : List String
deriving DecidableEq, Repr

/-- The account of what is wrong with a block: its line range, a message, and its text. -/
def Block.report (block : Block) (message : String) : String :=
  "Error on lines " ++ toString block.start ++ " - " ++ toString block.stop ++ "\n" ++ message ++
    ":\n```\n" ++ block.text ++ "\n```"

namespace Program

/-- The blocks that can be read, with their declarations. -/
def readable (blocks : List Block) : List (Block × Decl) :=
  blocks.filterMap fun block =>
    match block.read with
    | .ok decl => some (block, decl)
    | .error _ => none

/-- The blocks that cannot be read, with the reason. -/
def unreadable (blocks : List Block) : List (Block × String) :=
  blocks.filterMap fun block =>
    match block.read with
    | .ok _ => none
    | .error diagnostic => some (block, diagnostic.message)

/-- The declarations that do not resolve, with the reason. -/
def unresolved (scope : Scope) (parsed : List (Block × Decl)) : List (Block × String) :=
  parsed.filterMap fun (block, decl) =>
    (scope.issue? decl).map fun issue => (block, issue.message)

/-- Reads a module text. Errors stand in the order of their blocks. -/
def ofText (text : String) : Program :=
  let blocks := Block.ofText text
  let parsed := readable blocks
  let body := parsed.map Prod.snd
  let problems := unreadable blocks ++ unresolved (Scope.ofDecls body) parsed
  let ordered := problems.mergeSort fun a b => decide (a.1.start ≤ b.1.start)
  ⟨"main", body, ordered.map fun (block, message) => block.report message⟩

end Program

end Polyglot
