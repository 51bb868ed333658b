import Polyglot.Diagnostic
import Polyglot.Text

/-!
# Blocks

A module is a sequence of blocks, one for each declaration. A block starts at column zero and
goes on until a blank line, a comment line, or another line at column zero that does not
continue it. Only the raw lines are looked at: `signatureName` and `equationWords` recognise the
two kinds of heading line.
-/

namespace Polyglot

/-- The form of a declaration. -/
inductive Form where
  | union
  | function
  | const
deriving DecidableEq, Repr

/-- The lines of one declaration. `start` counts lines from zero. -/
structure Block where
  /-- The form that the heading lines suggest. -/
  hint : Option Form
  start : Int
  lines : List String
deriving DecidableEq, Repr

namespace Block

def text (block : Block) : String :=
  Text.unlines block.lines

/-- The line after the last one. -/
def stop (block : Block) : Int :=
  block.start + block.lines.length

end Block

namespace Heading

/-! ## Kinds of lines -/

def isBlankLine (line : String) : Bool :=
  line.toList.all Text.isBlank

/-- A comment line has its hyphens at column zero. -/
def isCommentLine (line : String) : Bool :=
  "--".toList.isPrefixOf line.toList

def atColumnZero (line : String) : Bool :=
  match line.toList with
  | [] => false
  | c :: _ => c != ' ' && c != '\t'

/-- The part of a line before the first `c`: all of it if there is none. -/
def before (c : Char) (cs : List Char) : List Char :=
  cs.takeWhile (· != c)

/-- The name that a line `name: type` declares. The colon stands before any equals sign. -/
def signatureName (line : String) : Option String :=
  let head := before '=' line.toList
  let name := Text.trim (before ':' head)
  if head.contains ':' && Text.isIdentifier name then some (String.ofList name) else none

/-- The words of a line `name parameter … =`. -/
def equationWords (line : String) : Option (List String) :=
  let words := Text.words (before '=' line.toList)
  if line.toList.contains '=' && !words.isEmpty && words.all Text.isIdentifier then
    some (words.map String.ofList)
  else
    none

/-! ## Forms -/

/-- The form of an equation: a function if a parameter follows the name. -/
def equationForm (line : String) : Option Form :=
  (equationWords line).map fun words => if 1 < words.length then .function else .const

/-- The form that the lines of a declaration suggest. After a signature the second line decides. -/
def form : List String → Option Form
  | [] => none
  | first :: rest =>
      if first = "type" ∨ "type ".toList.isPrefixOf first.toList then some .union
      else if (signatureName first).isSome then rest.head?.bind equationForm
      else equationForm first

/-- The form of a declaration's lines, the first of which has the number `line`. Blank lines may
lead. -/
def classify (line : Int) : List String → Except Diagnostic Form
  | [] => .error ⟨.block, .emptyBlock, ⟨line, 1⟩⟩
  | first :: rest =>
      if isBlankLine first then
        classify (line + 1) rest
      else
        match form (first :: rest) with
        | some form => .ok form
        | none => .error ⟨.block, .unknownBlock, ⟨line, 1⟩⟩

/-! ## Cutting a text into blocks -/

/-- Whether a line ends the block before it and belongs to none. -/
def separates (line : String) : Bool :=
  isBlankLine line || isCommentLine line

/-- Whether a line at column zero still belongs to the block of the lines `current`: it starts
with a bar, or it is the equation of a signature that stands alone so far. -/
def continues (current : List String) (line : String) : Bool :=
  line.toList.head? == some '|' ||
    match current with
    | [only] =>
        match signatureName only, equationWords line with
        | some name, some words => words.head? == some name
        | _, _ => false
    | _ => false

end Heading

namespace Block

open Heading

/-- The block of the lines before the line `number`, if there are any. -/
def closed (number : Int) (current : List String) : List Block :=
  if current.isEmpty then [] else [⟨form current, number - current.length, current⟩]

/-- The blocks of the lines from the line `number` on, after the lines `current` of a block that
is not closed yet. -/
def segment (number : Int) (current : List String) : List String → List Block
  | [] => closed number current
  | line :: rest =>
      if separates line then
        closed number current ++ segment (number + 1) [] rest
      else if current.isEmpty || !atColumnZero line || continues current line then
        segment (number + 1) (current ++ [line]) rest
      else
        closed number current ++ segment (number + 1) [line] rest

/-- The blocks of a text. -/
def ofText (text : String) : List Block :=
  segment 0 [] (Text.lines text)

end Block

end Polyglot
