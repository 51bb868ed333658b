import Mathlib.Data.List.Pairwise
import Polyglot.Block

/-!
# The blocks of a text and its lines

`Segments` says what it is to cut lines into blocks, without the lines collected so far: a line that
separates is left out, and a block takes lines as long as they join those before them. Everything
about the blocks of a text is read off this relation.

Results:
1. `segments_ofText`: the blocks of a text are cut that way.
2. `Segments.exists_of_mem`: where each block stands; `Segments.pairwise`: in which order.
3. `Segments.holds_iff`: which lines the blocks hold.
4. `ofText_partition`: the blocks as ranges of lines, and where a new one starts.
5. `Segments.segment_eq`: lines can be cut in one way only.
-/

namespace Polyglot

namespace Heading

/-- A line at column zero that goes on with the lines `current`: it starts with a bar, or it is the
equation of the signature that stands alone so far. -/
def GoesOn (current : List String) (line : String) : Prop :=
  line.toList.head? = some '|' ∨
    ∃ signature name params, current = [signature] ∧ signatureName signature = some name ∧
      equationWords line = some (name :: params)

theorem continues_iff {current : List String} {line : String} :
    continues current line = true ↔ GoesOn current line := by
  unfold continues GoesOn
  rw [Bool.or_eq_true, beq_iff_eq]
  refine or_congr_right ⟨fun h => ?_, ?_⟩
  · split at h
    · next only =>
      split at h
      · next name words hname hwords =>
        cases words with
        | nil => cases h
        | cons word words =>
          obtain rfl : word = name := Option.some.inj (beq_iff_eq.mp h)
          exact ⟨only, word, words, rfl, hname, hwords⟩
      · cases h
    · cases h
  · rintro ⟨signature, name, params, rfl, hname, hwords⟩
    simp only [hname, hwords, List.head?_cons, beq_self_eq_true]

/-- Whether a line that does not separate belongs to the block of the lines before it. -/
def joins (current : List String) (line : String) : Bool :=
  !atColumnZero line || continues current line

theorem joins_eq_false_iff {current : List String} {line : String} :
    joins current line = false ↔ atColumnZero line = true ∧ ¬ GoesOn current line := by
  rw [joins, Bool.or_eq_false_iff, Bool.not_eq_false', ← continues_iff, Bool.not_eq_true]

/-- A line that goes on with any block. -/
structure Flows (line : String) : Prop where
  holds : separates line = false
  joins : ∀ current, joins current line = true

theorem separates_iff {line : String} :
    separates line = true ↔ isBlankLine line = true ∨ isCommentLine line = true := by
  rw [separates, Bool.or_eq_true]

end Heading

namespace Block

open Heading

/-! ## Cutting lines -/

/-- The lines of one block: none separates, and each but the first joins those before it. -/
inductive Piece : List String → Prop
  | single {line : String} : separates line = false → Piece [line]
  | snoc {lines : List String} {line : String} : Piece lines → separates line = false →
      joins lines line = true → Piece (lines ++ [line])

/-- The block of the lines `lines` ends before the lines `rest`. -/
def Stops (lines rest : List String) : Prop :=
  ∀ line ∈ rest.head?, separates line = true ∨ joins lines line = false

/-- The lines from the line `number` on are cut into the blocks. -/
inductive Segments : Int → List String → List Block → Prop
  | nil {number : Int} : Segments number [] []
  | skip {number : Int} {line : String} {rest : List String} {blocks : List Block} :
      separates line = true → Segments (number + 1) rest blocks →
      Segments number (line :: rest) blocks
  | block {number : Int} {lines rest : List String} {blocks : List Block} : Piece lines →
      Stops lines rest → Segments (number + lines.length) rest blocks →
      Segments number (lines ++ rest) (⟨form lines, number, lines⟩ :: blocks)

theorem Piece.ne_nil {lines : List String} (h : Piece lines) : lines ≠ [] := by
  cases h with
  | single _ => exact List.cons_ne_nil _ _
  | snoc _ _ _ => exact List.append_ne_nil_of_right_ne_nil _ (List.cons_ne_nil _ _)

theorem Piece.append {lines more : List String} (h : Piece lines)
    (hmore : ∀ line ∈ more, Flows line) : Piece (lines ++ more) := by
  induction more generalizing lines with
  | nil => rwa [List.append_nil]
  | cons line more ih =>
    obtain ⟨hline, hmore⟩ := List.forall_mem_cons.mp hmore
    rw [List.append_cons]
    exact ih (.snoc h hline.holds (hline.joins lines)) hmore

theorem Piece.not_separates {lines : List String} (h : Piece lines) :
    ∀ line ∈ lines, separates line = false := by
  induction h with
  | single h => exact List.forall_mem_singleton.mpr h
  | snoc _ h _ ih =>
    intro line hline
    rcases List.mem_append.mp hline with hline | hline
    · exact ih line hline
    · rwa [List.mem_singleton.mp hline]

/-- Every line but the first joins those before it. -/
theorem Piece.joins_take {lines : List String} (h : Piece lines) {k : Nat} {line : String}
    (hline : lines[k]? = some line) (hk : 0 < k) : joins (lines.take k) line = true := by
  induction h with
  | @single first _ =>
    rw [List.getElem?_singleton, if_neg (Nat.ne_of_gt hk)] at hline
    cases hline
  | @snoc lines last _ _ hjoins ih =>
    rcases Nat.lt_or_ge k lines.length with hlt | hge
    · rw [List.getElem?_append_left hlt] at hline
      rw [List.take_append_of_le_length (Nat.le_of_lt hlt)]
      exact ih hline
    · rw [List.getElem?_append_right hge, List.getElem?_singleton] at hline
      split at hline
      · next hlast =>
        obtain rfl : k = lines.length := Nat.le_antisymm (Nat.le_of_sub_eq_zero hlast) hge
        obtain rfl : last = line := Option.some.inj hline
        rwa [List.take_left]
      · cases hline

/-- Closing a block leaves the lines behind it to the blocks behind it. -/
theorem segments_closed {current : List String} (h : current = [] ∨ Piece current) {number : Int}
    {rest : List String} {blocks : List Block} (hstops : Stops current rest)
    (hrest : Segments number rest blocks) :
    Segments (number - current.length) (current ++ rest) (closed number current ++ blocks) := by
  rcases h with rfl | h
  · rw [List.length_nil, Int.natCast_zero, Int.sub_zero]
    exact hrest
  · rw [closed, if_neg (by simpa using h.ne_nil)]
    exact .block h hstops (by rwa [Int.sub_add_cancel])

/-- The lines collected so far come before those still to come. -/
theorem segments_segment {current : List String} (h : current = [] ∨ Piece current)
    (rest : List String) (number : Int) :
    Segments (number - current.length) (current ++ rest) (segment number current rest) := by
  induction rest generalizing number current with
  | nil =>
    rw [segment, ← List.append_nil (closed number current)]
    exact segments_closed h (fun line hline => nomatch hline) .nil
  | cons line rest ih =>
    have hrest : ∀ {lines : List String}, lines = [] ∨ Piece lines →
        Segments (number + 1 - lines.length) (lines ++ rest) (segment (number + 1) lines rest) :=
      fun hlines => ih hlines (number + 1)
    rw [segment]
    split
    · next hseparates =>
      refine segments_closed h ?_ (.skip hseparates (by simpa using hrest (.inl rfl)))
      rintro _ ⟨⟩
      exact .inl hseparates
    · next hseparates =>
      rw [Bool.not_eq_true] at hseparates
      split
      · next hjoins =>
        have hpiece : Piece (current ++ [line]) := by
          rcases h with rfl | h
          · exact .single hseparates
          · refine .snoc h hseparates ?_
            simpa [joins, h.ne_nil] using hjoins
        have hnumber : number - current.length = number + 1 - (current ++ [line]).length := by
          rw [List.length_append, List.length_singleton]
          omega
        rw [hnumber, show current ++ line :: rest = current ++ [line] ++ rest by simp]
        exact hrest (.inr hpiece)
      · next hjoins =>
        refine segments_closed h ?_ (by simpa using hrest (.inr (.single hseparates)))
        rintro _ ⟨⟩
        refine .inr (Bool.not_eq_true _ ▸ fun hjoins' => hjoins ?_)
        rw [Bool.or_assoc, show (!atColumnZero line || continues current line) = true from hjoins',
          Bool.or_true]

/-- The blocks of a text are cut from its lines. -/
theorem segments_ofText (text : String) : Segments 0 (Text.lines text) (ofText text) :=
  segments_segment (.inl rfl) (Text.lines text) 0

/-! ## One way to cut -/

/-- A block is collected line by line. -/
theorem Piece.segment_eq {lines : List String} (h : Piece lines) (number : Int)
    (rest : List String) :
    segment number [] (lines ++ rest) = segment (number + lines.length) lines rest := by
  induction h generalizing rest with
  | @single line hline =>
    rw [List.singleton_append, segment, hline]
    rfl
  | @snoc lines line _ hline hjoins ih =>
    have hjoin : (lines.isEmpty || !atColumnZero line || continues lines line) = true := by
      rw [Bool.or_assoc, show (!atColumnZero line || continues lines line) = true from hjoins,
        Bool.or_true]
    have hnumber : number + lines.length + 1 = number + (lines ++ [line]).length := by
      rw [List.length_append, List.length_singleton]
      omega
    rw [List.append_assoc, ih, List.singleton_append, segment, hline, if_neg Bool.false_ne_true,
      if_pos hjoin, hnumber]

/-- Nothing of a block is left where it stops. -/
theorem Stops.segment_eq {lines rest : List String} (h : Stops lines rest) (hne : lines ≠ [])
    (number : Int) :
    segment number lines rest = closed number lines ++ segment number [] rest := by
  cases rest with
  | nil => exact (List.append_nil _).symm
  | cons line rest =>
    rw [segment, segment]
    split
    · rfl
    · next hline =>
      have hjoins : joins lines line = false := (h line rfl).resolve_left hline
      have hempty : lines.isEmpty = false := by simpa using hne
      rw [hempty, Bool.false_or,
        show (!atColumnZero line || continues lines line) = false from hjoins]
      rfl

theorem Segments.segment_eq {number : Int} {lines : List String} {blocks : List Block}
    (h : Segments number lines blocks) : segment number [] lines = blocks := by
  induction h with
  | nil => rfl
  | skip hline _ ih =>
    rw [segment, if_pos hline, ih]
    rfl
  | @block number lines rest blocks hpiece hstops _ ih =>
    rw [hpiece.segment_eq, hstops.segment_eq hpiece.ne_nil, ih, closed,
      if_neg (by simpa using hpiece.ne_nil), Int.add_sub_cancel]
    rfl

/-! ## Ranges of lines -/

/-- The line of the given number belongs to the block. -/
def Holds (block : Block) (number : Int) : Prop :=
  block.start ≤ number ∧ number < block.stop

/-- Each block is a stretch of the lines, and ends where it has to. -/
theorem Segments.exists_of_mem {number : Int} {lines : List String} {blocks : List Block}
    (h : Segments number lines blocks) {block : Block} (hblock : block ∈ blocks) :
    ∃ before rest, lines = before ++ (block.lines ++ rest) ∧
      block.start = number + before.length ∧ Piece block.lines ∧ Stops block.lines rest := by
  induction h with
  | nil => cases hblock
  | @skip number line rest blocks _ _ ih =>
    obtain ⟨before, after, rfl, hstart, hpiece⟩ := ih hblock
    refine ⟨line :: before, after, rfl, ?_, hpiece⟩
    rw [hstart, List.length_cons]
    omega
  | @block number lines rest blocks hpiece hstops _ ih =>
    rcases List.mem_cons.mp hblock with rfl | hblock
    · exact ⟨[], rest, rfl, (Int.add_zero number).symm, hpiece, hstops⟩
    · obtain ⟨before, after, rfl, hstart, hpiece'⟩ := ih hblock
      refine ⟨lines ++ before, after, (List.append_assoc ..).symm, ?_, hpiece'⟩
      rw [hstart, List.length_append]
      omega

theorem Segments.hint_of_mem {number : Int} {lines : List String} {blocks : List Block}
    (h : Segments number lines blocks) {block : Block} (hblock : block ∈ blocks) :
    block.hint = form block.lines := by
  induction h with
  | nil => cases hblock
  | skip _ _ ih => exact ih hblock
  | block _ _ _ ih =>
    rcases List.mem_cons.mp hblock with rfl | hblock
    · rfl
    · exact ih hblock

theorem Segments.start_lt_stop {number : Int} {lines : List String} {blocks : List Block}
    (h : Segments number lines blocks) {block : Block} (hblock : block ∈ blocks) :
    number ≤ block.start ∧ block.start < block.stop ∧ block.stop ≤ number + lines.length := by
  obtain ⟨before, rest, rfl, hstart, hpiece, _⟩ := h.exists_of_mem hblock
  have hlength := List.length_pos_iff.mpr hpiece.ne_nil
  rw [stop, hstart, List.length_append, List.length_append]
  omega

/-- Each block ends before the next one starts. -/
theorem Segments.pairwise {number : Int} {lines : List String} {blocks : List Block}
    (h : Segments number lines blocks) : blocks.Pairwise fun a b => a.stop ≤ b.start := by
  induction h with
  | nil => exact .nil
  | skip _ _ ih => exact ih
  | block _ _ hrest ih => exact .cons (fun block hblock => (hrest.start_lt_stop hblock).1) ih

/-- No line belongs to two blocks. -/
theorem Segments.eq_of_holds {number : Int} {lines : List String} {blocks : List Block}
    (h : Segments number lines blocks) {a b : Block} (ha : a ∈ blocks) (hb : b ∈ blocks) {i : Int}
    (hai : a.Holds i) (hbi : b.Holds i) : a = b := by
  have : Std.Symm fun a b : Block => a = b ∨ a.stop ≤ b.start ∨ b.stop ≤ a.start :=
    ⟨fun _ _ hapart => hapart.imp Eq.symm Or.symm⟩
  have hapart : blocks.Pairwise fun a b => a = b ∨ a.stop ≤ b.start ∨ b.stop ≤ a.start :=
    h.pairwise.imp fun hle => .inr (.inl hle)
  rcases hapart.forall_of_forall (fun _ _ => .inl rfl) ha hb with heq | hle | hle
  · exact heq
  · exact absurd (Int.lt_of_lt_of_le hai.2 hle) (Int.not_lt.mpr hbi.1)
  · exact absurd (Int.lt_of_lt_of_le hbi.2 hle) (Int.not_lt.mpr hai.1)

/-- The blocks hold the lines that do not separate. -/
theorem Segments.holds_iff {number : Int} {lines : List String} {blocks : List Block}
    (h : Segments number lines blocks) {k : Nat} {line : String} (hline : lines[k]? = some line) :
    (∃ block ∈ blocks, block.Holds (number + k)) ↔ separates line = false := by
  induction h generalizing k with
  | nil => cases hline
  | @skip number first rest blocks hseparates hrest ih =>
    cases k with
    | zero =>
      obtain rfl : first = line := Option.some.inj hline
      rw [hseparates]
      refine iff_of_false ?_ Bool.true_eq_false.mp
      rintro ⟨block, hblock, hstart, _⟩
      have hle := (hrest.start_lt_stop hblock).1
      omega
    | succ k =>
      rw [← ih hline, Int.natCast_succ, Int.add_assoc, Int.add_comm 1]
  | @block number lines rest blocks hpiece _ hrest ih =>
    rcases Nat.lt_or_ge k lines.length with hlt | hge
    · rw [List.getElem?_append_left hlt] at hline
      refine iff_of_true ⟨_, List.mem_cons_self, ?_⟩
        (hpiece.not_separates line (List.mem_of_getElem? hline))
      exact ⟨by dsimp only; omega, by unfold stop; dsimp only; omega⟩
    · rw [List.getElem?_append_right hge] at hline
      have hnumber : number + k = number + lines.length + (k - lines.length : Nat) := by omega
      rw [hnumber, ← ih hline]
      simp only [List.mem_cons, or_and_right, exists_or, exists_eq_left]
      rw [or_iff_right]
      rintro ⟨_, hstop⟩
      unfold stop at hstop
      dsimp only at hstop
      omega

/-- The lines of a block up to the line `i`, which it holds or which comes right behind it. -/
theorem Segments.extract_eq_take {lines : List String} {blocks : List Block}
    (h : Segments 0 lines blocks) {block : Block} (hblock : block ∈ blocks) {i : Nat}
    (hi : i ≤ block.stop) :
    lines.extract block.start.toNat i = block.lines.take (i - block.start.toNat) := by
  obtain ⟨before, rest, rfl, hstart, _⟩ := h.exists_of_mem hblock
  have hbefore : block.start.toNat = before.length := by omega
  have hlength : i - before.length ≤ block.lines.length := by
    unfold stop at hi
    omega
  rw [hbefore, List.extract_eq_take_drop, List.drop_left, List.take_append_of_le_length hlength]

/-! ## Where a block starts -/

theorem Holds.pred {block : Block} {i : Int} (h : block.Holds i) (hne : block.start ≠ i) :
    block.Holds (i - 1) := by
  obtain ⟨hstart, hstop⟩ := h
  exact ⟨by omega, by omega⟩

/-- Inside a block every line but the first joins the lines before it. -/
theorem Segments.joins_inside {lines : List String} {blocks : List Block}
    (h : Segments 0 lines blocks) {block : Block} (hblock : block ∈ blocks) {i : Nat}
    {line : String} (hline : lines[i]? = some line) (hi : block.Holds i) (hne : block.start ≠ i) :
    joins (lines.extract block.start.toNat i) line = true := by
  rw [h.extract_eq_take hblock (Int.le_of_lt hi.2)]
  obtain ⟨before, rest, rfl, hstart, hpiece, _⟩ := h.exists_of_mem hblock
  obtain ⟨hlow, hhigh⟩ := hi
  unfold stop at hhigh
  have hbefore : block.start.toNat = before.length := by omega
  rw [List.getElem?_append_right (by omega), List.getElem?_append_left (by omega)] at hline
  rw [hbefore]
  exact hpiece.joins_take hline (by omega)

/-- A line right behind a block separates, or it does not join the lines of the block. -/
theorem Segments.stops_behind {lines : List String} {blocks : List Block}
    (h : Segments 0 lines blocks) {block : Block} (hblock : block ∈ blocks) {i : Nat}
    {line : String} (hline : lines[i]? = some line) (hi : block.stop = i) :
    separates line = true ∨ joins (lines.extract block.start.toNat i) line = false := by
  rw [h.extract_eq_take hblock (Int.le_of_eq hi.symm)]
  obtain ⟨before, rest, rfl, hstart, _, hstops⟩ := h.exists_of_mem hblock
  unfold stop at hi
  have hlength : i - block.start.toNat = block.lines.length := by omega
  have hrest : i - before.length - block.lines.length = 0 := by omega
  rw [List.getElem?_append_right (by omega), List.getElem?_append_right (by omega), hrest,
    ← List.head?_eq_getElem?] at hline
  rw [hlength, List.take_length]
  exact hstops line hline

/-- Of the lines that blocks hold, these are the first ones of a block. -/
theorem Segments.starts_iff {lines : List String} {blocks : List Block}
    (h : Segments 0 lines blocks) {i : Nat} {line : String} (hline : lines[i]? = some line)
    (hheld : ∃ block ∈ blocks, block.Holds i) :
    (∃ block ∈ blocks, block.start = i) ↔
      i = 0 ∨ (∀ block ∈ blocks, ¬ block.Holds (i - 1)) ∨
        (atColumnZero line = true ∧
          ∃ block ∈ blocks, block.Holds (i - 1) ∧
            ¬ GoesOn (lines.extract block.start.toNat i) line) := by
  constructor
  · rintro ⟨block, hblock, hstart⟩
    by_cases hbefore : ∃ other ∈ blocks, other.Holds (i - 1)
    · -- The block that holds the line before ends here, since no line belongs to two blocks.
      obtain ⟨other, hother, hholds⟩ := hbefore
      obtain ⟨hlow, hhigh⟩ := hholds
      have hstop : other.stop = i := by
        by_contra hne
        have hi : other.Holds i := ⟨by omega, by omega⟩
        have hself : block.Holds i :=
          ⟨Int.le_of_eq hstart, hstart ▸ (h.start_lt_stop hblock).2.1⟩
        obtain rfl := h.eq_of_holds hother hblock hi hself
        omega
      have hseparates := (h.holds_iff hline).mp (by simpa using hheld)
      rcases h.stops_behind hother hline hstop with hbad | hjoins
      · rw [hbad] at hseparates
        cases hseparates
      · obtain ⟨hcolumn, hgoes⟩ := joins_eq_false_iff.mp hjoins
        exact .inr (.inr ⟨hcolumn, other, hother, ⟨hlow, hhigh⟩, hgoes⟩)
    · exact .inr (.inl fun other hother hholds => hbefore ⟨other, hother, hholds⟩)
  · obtain ⟨block, hblock, hi⟩ := hheld
    intro hcases
    refine ⟨block, hblock, ?_⟩
    by_contra hne
    have hbefore := hi.pred hne
    rcases hcases with rfl | hnone | ⟨hcolumn, other, hother, hholds, hgoes⟩
    · have hlow := Int.le_trans (h.start_lt_stop hblock).1 hbefore.1
      cases hlow
    · exact hnone block hblock hbefore
    · obtain rfl := h.eq_of_holds hother hblock hholds hbefore
      have hjoins := h.joins_inside hother hline hi hne
      rw [joins_eq_false_iff.mpr ⟨hcolumn, hgoes⟩] at hjoins
      cases hjoins

/-- The blocks of a text are ranges of its lines, one behind the other. They leave out the blank
lines and the comment lines. A line that they hold starts a block if it is the first line, if the
line before it is left out, or if it stands at column zero and does not go on with the lines of the
block so far. -/
theorem ofText_partition (text : String) :
    (∀ block ∈ ofText text, 0 ≤ block.start ∧ block.start < block.stop ∧
      block.stop ≤ (Text.lines text).length ∧
      block.lines = (Text.lines text).extract block.start.toNat block.stop.toNat) ∧
    (ofText text).Pairwise (fun a b => a.stop ≤ b.start) ∧
    (∀ (i : Nat) (line : String), (Text.lines text)[i]? = some line →
      ((∀ block ∈ ofText text, ¬ block.Holds i) ↔
        isBlankLine line = true ∨ isCommentLine line = true)) ∧
    (∀ (i : Nat) (line : String), (Text.lines text)[i]? = some line →
      (∃ block ∈ ofText text, block.Holds i) →
      ((∃ block ∈ ofText text, block.start = i) ↔
        i = 0 ∨ (∀ block ∈ ofText text, ¬ block.Holds (i - 1)) ∨
          (atColumnZero line = true ∧
            ∃ block ∈ ofText text, block.Holds (i - 1) ∧
              ¬ GoesOn ((Text.lines text).extract block.start.toNat i) line))) := by
  have h := segments_ofText text
  refine ⟨fun block hblock => ?_, h.pairwise, fun i line hline => ?_,
    fun i line hline hheld => h.starts_iff hline hheld⟩
  · obtain ⟨hlow, hlt, hhigh⟩ := h.start_lt_stop hblock
    have hstop : (block.stop.toNat : Int) ≤ block.stop := by omega
    have hlength : block.stop.toNat - block.start.toNat = block.lines.length := by
      unfold stop
      omega
    refine ⟨hlow, hlt, by omega, ?_⟩
    rw [h.extract_eq_take hblock hstop, hlength, List.take_length]
  · have hheld := h.holds_iff hline
    rw [Int.zero_add] at hheld
    rw [← separates_iff, ← Bool.not_eq_false, ← hheld]
    simp only [not_exists, not_and]

end Block

end Polyglot
