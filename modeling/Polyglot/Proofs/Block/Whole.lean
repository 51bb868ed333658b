import Polyglot.Proofs.Block.Layout
import Polyglot.Proofs.Block.Moved
import Polyglot.Proofs.Block.Partition

/-!
# Texts that are one block

A text is one block if its first line opens one and every further line goes on with the lines before
it. Lines that are indented or start with a bar go on with whatever stands before them
(`Heading.flows_of_hangs`).

Results:
1. `IsWhole.ofText_eq`: the block of a text that is one.
2. `Piece.ofText_eq`: lines that are one block.
3. `read_whole`: where such a block stands shows only in its diagnostic.
-/

namespace Polyglot

/-! ## Lines -/

namespace Heading

/-- A line that holds something and starts with a blank. -/
def isIndented (line : String) : Bool :=
  !isBlankLine line && !atColumnZero line

/-- A line that can stand below the first line of any declaration: it is indented, or it starts with
a bar. -/
def hangs (line : String) : Bool :=
  isIndented line || line.toList.head? == some '|'

theorem head_of_isIndented {line : String} (h : isIndented line = true) :
    ∃ c ∈ line.toList.head?, c = ' ' ∨ c = '\t' := by
  rw [isIndented, Bool.and_eq_true, Bool.not_eq_true', Bool.not_eq_true', isBlankLine,
    atColumnZero] at h
  cases hline : line.toList with
  | nil =>
    rw [hline] at h
    cases h.1
  | cons c cs =>
    rw [hline] at h
    refine ⟨c, rfl, ?_⟩
    have hc : (c != ' ' && c != '\t') = false := h.2
    grind

theorem head_of_hangs {line : String} (h : hangs line = true) :
    ∃ c ∈ line.toList.head?, c = ' ' ∨ c = '\t' ∨ c = '|' := by
  rw [hangs, Bool.or_eq_true, beq_iff_eq] at h
  rcases h with h | h
  · obtain ⟨c, hhead, hc⟩ := head_of_isIndented h
    exact ⟨c, hhead, hc.imp_right .inl⟩
  · exact ⟨'|', h, .inr (.inr rfl)⟩

theorem flows_of_hangs {line : String} (h : hangs line = true) : Flows line := by
  obtain ⟨c, hhead, hc⟩ := head_of_hangs h
  obtain ⟨cs, hline⟩ := List.head?_eq_some_iff.mp hhead
  refine ⟨?_, fun current => ?_⟩
  · have hblank : isBlankLine line = false := by
      rw [hangs, isIndented, Bool.or_eq_true, Bool.and_eq_true, beq_iff_eq] at h
      rcases h with h | h
      · exact Bool.not_eq_true' _ ▸ h.1
      · exact not_isBlankLine (List.mem_of_mem_head? h) (by decide)
    rw [separates, hblank, Bool.false_or, isCommentLine, hline]
    rcases hc with rfl | rfl | rfl <;> rfl
  · rw [Heading.joins, Bool.or_eq_true, continues_iff, atColumnZero, hline]
    rcases hc with rfl | rfl | rfl
    · exact .inl rfl
    · exact .inl rfl
    · exact .inr (.inl (by rw [hline]; rfl))

end Heading

/-! ## Blocks -/

namespace Block

open Heading

/-- All lines of a text as one block that starts at the line `start`. -/
def whole (start : Int) (text : String) : Block :=
  ⟨form (Text.lines text), start, Text.lines text⟩

/-- A text that is cut into one block of all its lines. -/
def IsWhole (text : String) : Prop :=
  ∃ block, ofText text = [block] ∧ block.lines = Text.lines text

theorem text_whole (start : Int) (text : String) : (whole start text).text = text :=
  Text.unlines_lines text

theorem IsWhole.ofText_eq {text : String} (h : IsWhole text) : ofText text = [whole 0 text] := by
  obtain ⟨block, hblocks, hlines⟩ := h
  have hmem : block ∈ ofText text := by
    rw [hblocks]
    exact List.mem_singleton_self block
  have hsegments := segments_ofText text
  obtain ⟨before, rest, hcut, hstart, _⟩ := hsegments.exists_of_mem hmem
  -- the block leaves no line to stand before it
  have hbefore : before = [] := by
    have hlength := congrArg List.length hcut
    rw [hlines, List.length_append, List.length_append] at hlength
    exact List.length_eq_zero_iff.mp (by omega)
  have hhint := hsegments.hint_of_mem hmem
  obtain ⟨hint, start, lines⟩ := block
  dsimp only at hlines hhint hstart
  rw [hblocks, hhint, hlines, hstart, hbefore]
  rfl

theorem Piece.ofText_eq {text : String} (h : Piece (Text.lines text)) :
    ofText text = [whole 0 text] := by
  have hsegments : Segments 0 (Text.lines text ++ []) [whole 0 text] :=
    .block h (fun line hline => nomatch hline) .nil
  rw [List.append_nil] at hsegments
  exact hsegments.segment_eq

/-- A first line that opens a block, and lines that flow. -/
theorem ofText_eq_whole {text first : String} {rest : List String}
    (hlines : Text.lines text = first :: rest) (hfirst : separates first = false)
    (hrest : ∀ line ∈ rest, Flows line) : ofText text = [whole 0 text] := by
  refine Piece.ofText_eq ?_
  rw [hlines]
  exact (Piece.single hfirst).append hrest

/-- A signature, the line of its equation, and lines that flow. -/
theorem ofText_eq_whole_of_signature {text first second : String} {rest : List String}
    (hlines : Text.lines text = first :: second :: rest) (hfirst : separates first = false)
    (hsecond : separates second = false) (hgoes : GoesOn [first] second)
    (hrest : ∀ line ∈ rest, Flows line) : ofText text = [whole 0 text] := by
  have hjoins : joins [first] second = true := by
    rw [joins, continues_iff.mpr hgoes, Bool.or_true]
  have hheads : Piece [first, second] := .snoc (.single hfirst) hsecond hjoins
  refine Piece.ofText_eq ?_
  rw [hlines]
  exact hheads.append hrest

/-- What reading a text as one block comes down to. -/
theorem read_whole_zero (text : String) :
    (whole 0 text).read = (do
      let form ← formOf text 1
      let tokens ← scan text 1
      (grammar form).outcome (Cursor.ofScan tokens)) := by
  rw [read, text_whole]
  rfl

/-- A block is read alike wherever it stands. -/
theorem read_whole (start : Int) (text : String) :
    (whole start text).read = movedOutcome start id (whole 0 text).read := by
  rw [← read_moved, moved, show (whole 0 text).start + start = start from Int.zero_add start]
  rfl

end Block

end Polyglot
