import Polyglot.Proofs.Decl.Placement
import Polyglot.Proofs.Token.Below

/-!
# Moving blocks to other lines

A block that stands further down is read as the same declaration, or refused for the same reason at
a place that is as much further down (`read_moved`). Heading lines are looked at without their
numbers, so the blocks of lines that are counted from another number are the same blocks, moved.
-/

namespace Polyglot

/-- The same lines, `count` lines further down. -/
def Block.moved (count : Int) (block : Block) : Block :=
  ⟨block.hint, block.start + count, block.lines⟩

/-! ## Reading -/

theorem classify_moved (count line : Int) (lines : List String) :
    Heading.classify (line + count) lines =
      movedOutcome count id (Heading.classify line lines) := by
  fun_induction Heading.classify line lines with
  | case1 line => rfl
  | case2 line first rest hblank ih =>
    rw [Heading.classify, if_pos hblank, ← ih, Int.add_right_comm]
  | case3 line first rest hblank form hform =>
    rw [Heading.classify, if_neg hblank, hform]
    rfl
  | case4 line first rest hblank hform =>
    rw [Heading.classify, if_neg hblank, hform]
    rfl

theorem token_alike_moved (count : Int) (token : Token) :
    token.Alike (fun pos pos' => pos' = pos.moved count) (token.moved count) :=
  ⟨rfl, rfl, Iff.rfl⟩

theorem tokens_alike_moved (count : Int) (tokens : List Token) :
    List.Forall₂ (Token.Alike fun pos pos' => pos' = pos.moved count) tokens
      (tokens.map (Token.moved count)) := by
  rw [List.forall₂_map_right_iff, List.forall₂_same]
  exact fun token _ => token_alike_moved count token

/-- Moving the tokens moves the diagnostic, if there is one. -/
theorem outcome_moved {α : Type} {p : Parser α} (count : Int)
    (h : p.Steady fun pos pos' => pos' = pos.moved count) (found : Scan) :
    p.outcome (Cursor.ofScan (found.moved count)) =
      movedOutcome count id (p.outcome (Cursor.ofScan found)) := by
  rcases h.outcome found (found.moved count) (tokens_alike_moved count found.tokens) rfl with
    ⟨a, hok, hok'⟩ | ⟨d, d', herror, herror', hd⟩
  · rw [hok]
    exact hok'
  · have hmoved : d' = d.moved count := by
      obtain ⟨area, problem, pos⟩ := d
      obtain ⟨area', problem', pos'⟩ := d'
      obtain ⟨rfl, rfl, rfl⟩ := hd
      rfl
    rw [herror, movedOutcome, ← hmoved]
    exact herror'

theorem read_moved (count : Int) (block : Block) :
    (block.moved count).read = movedOutcome count id block.read := by
  have hstart : (block.moved count).start + 1 = block.start + 1 + count :=
    Int.add_right_comm _ _ _
  unfold Block.read Block.formOf
  rw [hstart, show (block.moved count).text = block.text from rfl, classify_moved, scan_moved]
  cases Heading.classify (block.start + 1) (Text.lines block.text) with
  | error d => rfl
  | ok form =>
    cases scan block.text (block.start + 1) with
    | error d => rfl
    | ok found => exact outcome_moved count (Grammar.steady_grammar form) found

/-! ## Cutting -/

theorem segment_moved (count number : Int) (current rest : List String) :
    Block.segment (number + count) current rest =
      (Block.segment number current rest).map (Block.moved count) := by
  have hclosed : ∀ (number : Int) (current : List String),
      Block.closed (number + count) current =
        (Block.closed number current).map (Block.moved count) := by
    intro number current
    unfold Block.closed
    split
    · rfl
    · have hstart : number + count - current.length = number - current.length + count := by
        omega
      rw [hstart]
      rfl
  fun_induction Block.segment number current rest with
  | case1 number current => exact hclosed number current
  | case2 number current line rest hseparates ih =>
    rw [Block.segment, if_pos hseparates, List.map_append, ← ih, hclosed, Int.add_right_comm]
  | case3 number current line rest hseparates hjoins ih =>
    rw [Block.segment, if_neg hseparates, if_pos hjoins, ← ih, Int.add_right_comm]
  | case4 number current line rest hseparates hjoins ih =>
    rw [Block.segment, if_neg hseparates, if_neg hjoins, List.map_append, ← ih, hclosed,
      Int.add_right_comm]

end Polyglot
