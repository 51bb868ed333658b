import Polyglot.Proofs.Block.Blame
import Polyglot.Proofs.Block.Partition

/-!
# Where the diagnostics of a block point

What is wrong with a block of a text is wrong at a place of that block: in one of its lines, or
right behind the last character of one (`read_error_inside`). A block that is not cut from a text can
be blank throughout, and is then blamed for ending where it does, so this is a fact about the blocks
of texts.
-/

namespace Polyglot.Block

open Heading

/-! ## The lines of a block -/

/-- Joining the lines of a block of a text and cutting them again changes nothing. -/
theorem lines_text {text : String} {block : Block} (hblock : block ∈ ofText text) :
    Text.lines block.text = block.lines := by
  obtain ⟨before, rest, hlines, _, hpiece, _⟩ := (segments_ofText text).exists_of_mem hblock
  refine lines_unlines hpiece.ne_nil fun line hline => ?_
  have hmem : line ∈ Text.lines text := by
    rw [hlines]
    exact List.mem_append_right before (List.mem_append_left rest hline)
  exact not_mem_of_mem_lines hmem

/-- A block of a text starts with a line that is not blank. -/
theorem exists_first_line {text : String} {block : Block} (hblock : block ∈ ofText text) :
    ∃ first rest, block.lines = first :: rest ∧ isBlankLine first = false := by
  obtain ⟨_, _, _, _, hpiece, _⟩ := (segments_ofText text).exists_of_mem hblock
  obtain ⟨first, rest, hlines⟩ := List.exists_cons_of_ne_nil hpiece.ne_nil
  have hfirst : separates first = false :=
    hpiece.not_separates first (by rw [hlines]; exact List.mem_cons_self)
  rw [separates, Bool.or_eq_false_iff] at hfirst
  exact ⟨first, rest, hlines, hfirst.1⟩

/-! ## Places -/

/-- Lines of no known form are blamed for the first of them. -/
theorem inLines_of_classify_error {line : Int} {first : String} {rest : List String}
    {d : Diagnostic} (hfirst : isBlankLine first = false)
    (h : classify line (first :: rest) = .error d) : d.pos.InLines line (first :: rest) := by
  rw [classify, hfirst, if_neg Bool.false_ne_true] at h
  split at h
  · cases h
  · cases h
    exact .first ⟨rfl, Nat.le_refl 1, Nat.le_add_right 1 _⟩

theorem inLines_of_read_error {text : String} {block : Block} (hblock : block ∈ ofText text)
    {d : Diagnostic} (h : block.read = .error d) :
    d.pos.InLines (block.start + 1) block.lines := by
  obtain ⟨first, rest, hlines, hfirst⟩ := exists_first_line hblock
  have hcut := lines_text hblock
  rcases read_eq_error h with hform | ⟨form, _, hscan | ⟨found, hscan, _, hplace⟩⟩
  · rw [formOf, hcut, hlines] at hform
    rw [hlines]
    exact inLines_of_classify_error hfirst hform
  · rw [← hcut]
    exact inLines_of_scan_error hscan
  · rw [← hcut]
    obtain ⟨htokens, hfinish⟩ := inLines_of_scan hscan
    rcases List.mem_append.mp hplace with hplace | hplace
    · obtain ⟨t, ht, hpos⟩ := List.mem_map.mp hplace
      rw [← hpos]
      exact htokens t ht
    · rw [List.mem_singleton.mp hplace]
      exact hfinish

/-- A diagnostic of a block of a text points at a line of the block, which is the line of that
number in the text, and there at a character or right behind the last one. -/
theorem read_error_inside {text : String} {block : Block} (hblock : block ∈ ofText text)
    {d : Diagnostic} (h : block.read = .error d) :
    block.start + 1 ≤ d.pos.line ∧ d.pos.line ≤ block.stop ∧
      ∃ line, block.lines[(d.pos.line - block.start - 1).toNat]? = some line ∧
        (Text.lines text)[(d.pos.line - 1).toNat]? = some line ∧
        1 ≤ d.pos.col ∧ d.pos.col ≤ line.length + 1 := by
  obtain ⟨k, line, hline, hnumber, hlow, hhigh⟩ := inLines_of_read_error hblock h
  obtain ⟨before, rest, hlines, hstart, _⟩ := (segments_ofText text).exists_of_mem hblock
  have hk : k < block.lines.length := (List.getElem?_eq_some_iff.mp hline).1
  have hinside : (d.pos.line - block.start - 1).toNat = k := by
    rw [hnumber]
    omega
  have hintext : (d.pos.line - 1).toNat = before.length + k := by
    rw [hnumber, hstart]
    omega
  refine ⟨?_, ?_, line, ?_, ?_, hlow, ?_⟩
  · rw [hnumber]
    exact Int.le_add_of_nonneg_right (Int.natCast_nonneg k)
  · rw [hnumber, stop]
    omega
  · rw [hinside, hline]
  · rw [hintext, hlines, List.getElem?_append_right (Nat.le_add_right _ _), Nat.add_sub_cancel_left,
      List.getElem?_append_left hk, hline]
  · rwa [Nat.add_comm]

/-- A comment takes no room: what is missing behind it is missed where it starts. -/
theorem read_error_before_comment :
    ⟨some .const, 2, ["b =", "    \"x\" + -- open"]⟩ ∈
        ofText "a = 1\n\nb =\n    \"x\" + -- open\n" ∧
      read ⟨some .const, 2, ["b =", "    \"x\" + -- open"]⟩ =
        .error ⟨.expression, .expectedExpr none, ⟨4, 11⟩⟩ ∧
      (2 + 1 : Int) ≤ 4 ∧ (4 : Int) ≤ stop ⟨some .const, 2, ["b =", "    \"x\" + -- open"]⟩ ∧
      ∃ line, ["b =", "    \"x\" + -- open"][(4 - 2 - 1 : Int).toNat]? = some line ∧
        (Text.lines "a = 1\n\nb =\n    \"x\" + -- open\n")[(4 - 1 : Int).toNat]? = some line ∧
        1 ≤ 11 ∧ 11 ≤ line.length + 1 := by
  have hblock : ⟨some .const, 2, ["b =", "    \"x\" + -- open"]⟩ ∈
      ofText "a = 1\n\nb =\n    \"x\" + -- open\n" := by decide +kernel
  have hread : read ⟨some .const, 2, ["b =", "    \"x\" + -- open"]⟩ =
      .error ⟨.expression, .expectedExpr none, ⟨4, 11⟩⟩ := by decide +kernel
  exact ⟨hblock, hread, read_error_inside hblock hread⟩

end Polyglot.Block
