import Polyglot.Proofs.Text.Lines
import Polyglot.Proofs.Token.Lexemes

/-!
# A text below another

The scanner is one loop over the characters of a text. Every branch of it looks ahead, for the end
of a literal, a fraction, a second character or a comment, but none beyond its line. So a text can
be cut at any line feed: the upper part is scanned as if the text ended there, with the same
diagnostics, and the lower part as a text of its own that starts at a later line. The number of its
first line is all that a text is told about where it stands.

Results:
1. `scan_moved`: another number of the first line moves every token and every diagnostic.
2. `scanFrom_below`: the loop over a text below another.
3. `scan_eq_scanLines`: a text can be scanned line by line.
4. `scan_below`: the tokens of a text below another, or the first diagnostic, and what another
   number of the first line does to them.
-/

namespace Polyglot

/-! ## The steps of the scanner -/

theorem ne_newline_of_isGap {c : Char} (h : isGap c = true) : c ≠ '\n' := by
  rintro rfl
  exact absurd h (by decide)

theorem scanFrom_newline (line : Int) (col : Nat) (cs : List Char) :
    scanFrom line col ('\n' :: cs) = scanFrom (line + 1) 1 cs := by
  rw [scanFrom, if_pos rfl]

theorem scanFrom_gap (line : Int) (col : Nat) {c : Char} (hc : isGap c = true) (cs : List Char) :
    scanFrom line col (c :: cs) = scanFrom line (col + 1) cs := by
  rw [scanFrom, if_neg (ne_newline_of_isGap hc), if_pos hc]

/-- Of a comment only the end of its line is left. -/
theorem scanFrom_hyphens (line : Int) (col : Nat) (cs : List Char) :
    scanFrom line col ('-' :: '-' :: cs) = scanFrom line col (cs.dropWhile (· != '\n')) := by
  rw [scanFrom, if_neg (by decide), if_neg (by decide), if_pos ⟨rfl, rfl⟩,
    List.dropWhile_cons_of_pos (by decide)]

/-- A lexeme is taken where it is read. -/
theorem scanFrom_read {c : Char} {part rest : List Char} {l : Lexeme} (hspace : isSpace c = false)
    (hcomment : ¬ (c = '-' ∧ (part ++ rest).head? = some '-'))
    (hread : readLexeme c (part ++ rest) = .ok l) (hspelling : l.spelling.toList = c :: part)
    (line : Int) (col : Nat) :
    scanFrom line col (c :: (part ++ rest)) =
      (scanFrom line (col + (part.length + 1)) rest).map (Scan.cons ⟨l, ⟨line, col⟩⟩) := by
  obtain ⟨hgap, hline⟩ := isSpace_eq_false.mp hspace
  have hwidth : l.spelling.length = part.length + 1 := by
    rw [← String.length_toList, hspelling, List.length_cons]
  rw [scanFrom, if_neg hline, if_neg (by simp [hgap]), if_neg hcomment, hread]
  simp only [hwidth, Nat.add_sub_cancel, List.drop_left]

/-! ## What stands at a line -/

def Position.moved (count : Int) (pos : Position) : Position :=
  ⟨pos.line + count, pos.col⟩

def Token.moved (count : Int) (token : Token) : Token :=
  ⟨token.lexeme, token.pos.moved count⟩

def Scan.moved (count : Int) (scan : Scan) : Scan :=
  ⟨scan.tokens.map (Token.moved count), scan.finish.moved count⟩

/-- The same complaint, `count` lines further down. -/
def Diagnostic.moved (count : Int) (diagnostic : Diagnostic) : Diagnostic :=
  ⟨diagnostic.area, diagnostic.problem, diagnostic.pos.moved count⟩

/-- An outcome, `count` lines further down; `move` is what that means for a value. -/
def movedOutcome {α : Type} (count : Int) (move : α → α) :
    Except Diagnostic α → Except Diagnostic α
  | .ok value => .ok (move value)
  | .error diagnostic => .error (diagnostic.moved count)

theorem scanFrom_moved (count line : Int) (col : Nat) (cs : List Char) :
    scanFrom (line + count) col cs =
      movedOutcome count (Scan.moved count) (scanFrom line col cs) := by
  fun_induction scanFrom line col cs with
  | case1 line col =>
    rw [scanFrom]
    rfl
  | case2 line col cs ih => rw [scanFrom_newline, Int.add_right_comm, ih]
  | case3 line col c cs hline hgap ih => rw [scanFrom_gap _ col hgap, ih]
  | case4 line col c cs hline hgap hcomment ih =>
    rw [scanFrom, if_neg hline, if_neg hgap, if_pos hcomment, ih]
  | case5 line col c cs hline hgap hcomment problem offset hread =>
    rw [scanFrom, if_neg hline, if_neg hgap, if_neg hcomment, hread]
    rfl
  | case6 line col c cs hline hgap hcomment l hread width ih =>
    rw [scanFrom, if_neg hline, if_neg hgap, if_neg hcomment, hread]
    simp only [width] at ih ⊢
    rw [ih]
    cases scanFrom line (col + l.spelling.length) (cs.drop (l.spelling.length - 1)) <;> rfl

theorem scan_moved (count line : Int) (text : String) :
    scan text (line + count) = movedOutcome count (Scan.moved count) (scan text line) :=
  scanFrom_moved count line 1 text.toList

/-! ## Cutting at a line feed -/

/-- What is scanned in a text, and then below it. -/
def Scan.followedBy (above below : Scan) : Scan :=
  ⟨above.tokens ++ below.tokens, below.finish⟩

/-- The end of the upper text is no mark any more. -/
theorem Scan.marks_followedBy (above below : Scan) :
    (above.followedBy below).marks = above.marks.dropLast ++ below.marks := by
  rw [marks, marks, marks, followedBy, List.map_append, List.dropLast_concat, List.append_assoc]

/-- A line feed is no second hyphen. -/
theorem head?_newline_iff (cs rest : List Char) :
    (cs ++ '\n' :: rest).head? = some '-' ↔ cs.head? = some '-' := by
  cases cs with
  | nil =>
    refine iff_of_false (fun h => ?_) (by decide)
    cases h
  | cons d ds => rfl

/-- The rest of a comment holds no line feed. -/
theorem count_dropWhile_newline (cs : List Char) :
    (cs.dropWhile (· != '\n')).count '\n' = cs.count '\n' := by
  have hcut := congrArg (List.count '\n') (List.takeWhile_append_dropWhile (p := (· != '\n')) (l := cs))
  rwa [List.count_append, List.count_eq_zero_of_not_mem (not_mem_takeWhile_line cs),
    Nat.zero_add] at hcut

/-- The loop over a text below another: what it does in the upper text does not depend on the lower,
and there it starts anew, in the first column of a later line. -/
theorem scanFrom_below (line : Int) (col : Nat) (cs rest : List Char) :
    scanFrom line col (cs ++ '\n' :: rest) = (do
      let above ← scanFrom line col cs
      let below ← scanFrom (line + cs.count '\n' + 1) 1 rest
      return above.followedBy below) := by
  fun_induction scanFrom line col cs with
  | case1 line col =>
    rw [List.nil_append, scanFrom_newline, List.count_nil, Int.natCast_zero, Int.add_zero]
    cases scanFrom (line + 1) 1 rest <;> rfl
  | case2 line col cs ih =>
    have hcount : line + ('\n' :: cs).count '\n' + 1 = line + 1 + cs.count '\n' + 1 := by
      rw [List.count_cons_self]
      omega
    rw [List.cons_append, scanFrom_newline, ih, hcount]
  | case3 line col c cs hline hgap ih =>
    rw [List.cons_append, scanFrom_gap line col hgap, ih, List.count_cons_of_ne hline]
  | case4 line col c cs hline hgap hcomment ih =>
    have hdrop : (cs ++ '\n' :: rest).dropWhile (· != '\n') =
        cs.dropWhile (· != '\n') ++ '\n' :: rest :=
      (List.takeWhile_append_of_head (by simp) cs).2
    rw [List.cons_append, scanFrom, if_neg hline, if_neg hgap,
      if_pos ⟨hcomment.1, (head?_newline_iff cs rest).mpr hcomment.2⟩, hdrop, ih,
      count_dropWhile_newline, List.count_cons_of_ne hline]
  | case5 line col c cs hline hgap hcomment problem offset hread =>
    rw [List.cons_append, scanFrom, if_neg hline, if_neg hgap,
      if_neg (by rwa [head?_newline_iff]), readLexeme_newline, hread]
    rfl
  | case6 line col c cs hline hgap hcomment l hread width ih =>
    obtain ⟨part, behind, hspelling, hwidth, rfl⟩ := readLexeme_spelling hread
    have hpart : '\n' ∉ c :: part := hspelling ▸ not_mem_spelling (readLexeme_valid hread)
    have hcount : (c :: (part ++ behind)).count '\n' = behind.count '\n' := by
      rw [← List.cons_append, List.count_append, List.count_eq_zero_of_not_mem hpart, Nat.zero_add]
    rw [List.cons_append, scanFrom, if_neg hline, if_neg hgap,
      if_neg (by rwa [head?_newline_iff]), readLexeme_newline, hread, hcount]
    simp only [show width = part.length + 1 from hwidth, hwidth, Nat.add_sub_cancel,
      List.append_assoc, List.drop_left] at ih ⊢
    rw [ih]
    cases scanFrom line (col + (part.length + 1)) behind with
    | error d => rfl
    | ok above => cases scanFrom (line + behind.count '\n' + 1) 1 rest <;> rfl

theorem scan_newline (above below : String) (line : Int) :
    scan (above ++ "\n" ++ below) line = (do
      let upper ← scan above line
      let lower ← scan below (line + above.toList.count '\n' + 1)
      return upper.followedBy lower) := by
  rw [scan, String.append_assoc, String.toList_append, String.toList_append]
  exact scanFrom_below line 1 above.toList below.toList

/-! ## Line by line -/

/-- The tokens of consecutive lines, the first of which has the number `line`. -/
def scanLines (line : Int) : List String → Except Diagnostic Scan
  | [] => .ok ⟨[], ⟨line, 1⟩⟩
  | [last] => scan last line
  | first :: rest => do
      let above ← scan first line
      let below ← scanLines (line + 1) rest
      return above.followedBy below

theorem scanLines_cons (line : Int) (first : String) {rest : List String} (h : rest ≠ []) :
    scanLines line (first :: rest) = (do
      let above ← scan first line
      let below ← scanLines (line + 1) rest
      return above.followedBy below) :=
  scanLines.eq_3 line first rest h

/-- A text can be scanned line by line. -/
theorem scan_unlines {lines : List String} (hne : lines ≠ [])
    (h : ∀ content ∈ lines, '\n' ∉ content.toList) (line : Int) :
    scan (Text.unlines lines) line = scanLines line lines := by
  fun_induction scanLines line lines with
  | case1 => exact absurd rfl hne
  | case2 line last => rw [Text.unlines, String.intercalate_singleton]
  | case3 line first rest hrest ih =>
    rw [List.forall_mem_cons] at h
    rw [unlines_cons hrest, scan_newline, List.count_eq_zero_of_not_mem h.1, Int.natCast_zero,
      Int.add_zero, ih hrest h.2]

theorem scan_eq_scanLines (text : String) (line : Int) :
    scan text line = scanLines line (Text.lines text) := by
  have hlines := scan_unlines (Text.lines_ne_nil text) (fun _ => not_mem_of_mem_lines) line
  rwa [Text.unlines_lines] at hlines

/-! ## Marks -/

/-- The marks of a text below another are those of the upper text up to its end, and then those of
the lower text. What is wrong in the upper text is wrong in the same way and at the same place, and
comes before what is wrong in the lower. Another number of the first line moves all of this. -/
theorem scan_below (above below : String) (line : Int) :
    (scan (above ++ "\n" ++ below) line).map Scan.marks = (do
      let upper ← (scan above line).map Scan.marks
      let lower ← (scan below (line + above.toList.count '\n' + 1)).map Scan.marks
      return upper.dropLast ++ lower) ∧
    ∀ count : Int,
      scan above (line + count) = movedOutcome count (Scan.moved count) (scan above line) := by
  refine ⟨?_, fun count => scan_moved count line above⟩
  rw [scan_newline]
  cases scan above line with
  | error d => rfl
  | ok upper =>
    cases scan below (line + above.toList.count '\n' + 1) with
    | error d => rfl
    | ok lower => exact congrArg Except.ok (upper.marks_followedBy lower)

end Polyglot
