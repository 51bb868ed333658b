import Polyglot.Proofs.Block.Places
import Polyglot.Proofs.Block.Whole
import Polyglot.Proofs.Text.Margin

/-!
# Blocks with other lines between them

A block rebuilds itself line by line from nothing, and nothing is left of it where it stops. So
blocks that are written out with other separating lines between them are cut from that text again
(`ofText_respaced`).
-/

namespace Polyglot

namespace Block

open Heading

/-! ## Lines between blocks -/

/-- Lines that no block holds: blank lines and comment lines. -/
def IsGap (lines : List String) : Prop :=
  ∀ line ∈ lines, Text.IsLine line ∧ (isBlankLine line = true ∨ isCommentLine line = true)

instance (lines : List String) : Decidable (IsGap lines) :=
  inferInstanceAs (Decidable (∀ line ∈ lines, _))

/-- The texts of blocks, with lines between each two of them that no block holds. Such lines may
stand behind the last one too. -/
inductive Spaced : List Block → List String → Prop
  | nil : Spaced [] []
  | last {block : Block} {gap : List String} : IsGap gap → Spaced [block] (block.text :: gap)
  | cons {block : Block} {blocks : List Block} {gap texts : List String} : IsGap gap → gap ≠ [] →
      Spaced blocks texts → Spaced (block :: blocks) (block.text :: (gap ++ texts))

theorem IsGap.flatMap_lines {gap : List String} (h : IsGap gap) : gap.flatMap Text.lines = gap := by
  induction gap with
  | nil => rfl
  | cons line gap ih =>
    obtain ⟨⟨hline, _⟩, hgap⟩ := List.forall_mem_cons.mp h
    rw [List.flatMap_cons, Text.lines_of_isLine hline, ih hgap, List.singleton_append]

theorem Segments.behind_gap {gap rest : List String} {blocks : List Block} {number : Int}
    (hgap : IsGap gap) (h : Segments (number + gap.length) rest blocks) :
    Segments number (gap ++ rest) blocks := by
  induction gap generalizing number with
  | nil => simpa using h
  | cons line gap ih =>
    obtain ⟨⟨_, hline⟩, hrest⟩ := List.forall_mem_cons.mp hgap
    refine .skip (separates_iff.mpr hline) (ih hrest ?_)
    rwa [List.length_cons, Int.natCast_succ, Int.add_comm _ 1, ← Int.add_assoc] at h

theorem IsGap.stops {gap rest : List String} (h : IsGap gap) (hrest : gap = [] → rest = [])
    (lines : List String) : Stops lines (gap ++ rest) := by
  cases gap with
  | nil =>
    rw [hrest rfl]
    rintro _ ⟨⟩
  | cons first gap =>
    rintro _ ⟨⟩
    exact .inl (separates_iff.mpr (h first List.mem_cons_self).2)

/-! ## Cutting again -/

/-- A block without the place where it stands. -/
def content (block : Block) : Option Form × List String :=
  (block.hint, block.lines)

/-- A block that can be rebuilt from its text. -/
structure Rebuilds (block : Block) : Prop where
  piece : Piece block.lines
  hint : block.hint = form block.lines
  lines : Text.lines block.text = block.lines

theorem rebuilds_of_mem {text : String} {block : Block} (h : block ∈ ofText text) :
    block.Rebuilds := by
  obtain ⟨_, _, _, _, hpiece, _⟩ := (segments_ofText text).exists_of_mem h
  exact ⟨hpiece, (segments_ofText text).hint_of_mem h, lines_text h⟩

theorem Rebuilds.segments {block : Block} (h : block.Rebuilds) {gap rest : List String}
    (hgap : IsGap gap) (hrest : gap = [] → rest = []) {number : Int} {blocks : List Block}
    (hblocks : Segments (number + block.lines.length + gap.length) rest blocks) :
    Segments number (block.lines ++ (gap ++ rest)) ({ block with start := number } :: blocks) := by
  rw [h.hint]
  exact .block h.piece (hgap.stops hrest _) (.behind_gap hgap hblocks)

/-- Wherever the texts start, their lines are cut into the blocks that they are the texts of. -/
theorem Spaced.exists_segments {blocks : List Block} {texts : List String} (h : Spaced blocks texts)
    (hblocks : ∀ block ∈ blocks, block.Rebuilds) (number : Int) :
    ∃ found, Segments number (texts.flatMap Text.lines) found ∧
      found.map content = blocks.map content := by
  induction h generalizing number with
  | nil => exact ⟨[], .nil, rfl⟩
  | @last block gap hgap =>
    have hblock := hblocks block List.mem_cons_self
    have hsegments : Segments number (block.lines ++ (gap ++ [])) _ :=
      hblock.segments hgap (fun _ => rfl) .nil
    rw [List.flatMap_cons, hblock.lines, hgap.flatMap_lines, ← List.append_nil gap]
    exact ⟨_, hsegments, rfl⟩
  | @cons block blocks gap texts hgap hne _ ih =>
    obtain ⟨hblock, hrest⟩ := List.forall_mem_cons.mp hblocks
    obtain ⟨found, hfound, hsame⟩ := ih hrest (number + block.lines.length + gap.length)
    have hsegments := hblock.segments hgap (fun hnil => absurd hnil hne) hfound
    rw [List.flatMap_cons, hblock.lines, List.flatMap_append, hgap.flatMap_lines]
    refine ⟨_, hsegments, ?_⟩
    rw [List.map_cons, hsame]
    rfl

/-- Blocks are the same however many blank lines and comment lines stand between them, before the
first one and behind the last one, and each is the only block of its own text. -/
theorem ofText_respaced (text : String) :
    (∀ before texts, IsGap before → Spaced (ofText text) texts →
      (ofText (Text.unlines (before ++ texts))).map content = (ofText text).map content) ∧
    ∀ block ∈ ofText text, ofText block.text = [{ block with start := 0 }] := by
  constructor
  · intro before texts hbefore hspaced
    rcases eq_or_ne (before ++ texts) [] with hnil | hne
    · -- no line at all is joined to an empty one
      obtain ⟨rfl, rfl⟩ := List.append_eq_nil_iff.mp hnil
      generalize ofText text = blocks at hspaced
      cases hspaced
      rfl
    · obtain ⟨found, hfound, hsame⟩ :=
        hspaced.exists_segments (fun _ => rebuilds_of_mem) (0 + before.length)
      have hsegments := hfound.behind_gap hbefore
      rw [ofText, Text.lines_unlines_eq_flatMap hne, List.flatMap_append, hbefore.flatMap_lines,
        hsegments.segment_eq, hsame]
  · intro block hblock
    obtain ⟨hpiece, hhint, hlines⟩ := rebuilds_of_mem hblock
    rw [← hlines] at hpiece
    rw [hpiece.ofText_eq, whole, hlines, hhint]

/-- An equation does not join its signature across a comment, and two blocks that stood together
stay two when they are moved apart. -/
theorem ofText_respaced_signature :
    ofText "f : a\n\nf =\n    x\ng = f" =
      [⟨none, 0, ["f : a"]⟩, ⟨some .const, 2, ["f =", "    x"]⟩, ⟨some .const, 4, ["g = f"]⟩] ∧
    IsGap ["", "-- first"] ∧
    Spaced [⟨none, 0, ["f : a"]⟩, ⟨some .const, 2, ["f =", "    x"]⟩, ⟨some .const, 4, ["g = f"]⟩]
      ["f : a", "-- f", "f =\n    x", "", "  ", "--g", "g = f", ""] ∧
    (ofText "\n-- first\nf : a\n-- f\nf =\n    x\n\n  \n--g\ng = f\n").map content =
      [(none, ["f : a"]), (some .const, ["f =", "    x"]), (some .const, ["g = f"])] := by
  have hblocks : ofText "f : a\n\nf =\n    x\ng = f" =
      [⟨none, 0, ["f : a"]⟩, ⟨some .const, 2, ["f =", "    x"]⟩, ⟨some .const, 4, ["g = f"]⟩] := by
    decide +kernel
  have hbefore : IsGap ["", "-- first"] := by decide
  have hf : IsGap ["-- f"] := by decide
  have hg : IsGap ["", "  ", "--g"] := by decide
  have hend : IsGap [""] := by decide
  have hspaced : Spaced
      [⟨none, 0, ["f : a"]⟩, ⟨some .const, 2, ["f =", "    x"]⟩, ⟨some .const, 4, ["g = f"]⟩]
      ["f : a", "-- f", "f =\n    x", "", "  ", "--g", "g = f", ""] :=
    .cons hf (by decide) (.cons hg (by decide) (.last hend))
  have hagain := (ofText_respaced "f : a\n\nf =\n    x\ng = f").1 ["", "-- first"]
    ["f : a", "-- f", "f =\n    x", "", "  ", "--g", "g = f", ""] hbefore (hblocks ▸ hspaced)
  rw [hblocks] at hagain
  exact ⟨hblocks, hbefore, hspaced, hagain⟩

end Block

end Polyglot
