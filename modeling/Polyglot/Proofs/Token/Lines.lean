import Polyglot.Dialect
import Polyglot.Proofs.Reading
import Polyglot.Proofs.Token.Spelling

/-!
# Lines of lexemes

Every lexeme of a scanned text is valid (`scan_valid`). Going the other way, a line that spells
lexemes is scanned to these (`scan_spelled`), and so are indented lines (`scanLines_indented`).
-/

namespace Polyglot

/-! ## Valid lexemes -/

theorem scanFrom_valid_tokens {line : Int} {col : Nat} {cs : List Char} {found : Scan}
    (h : scanFrom line col cs = .ok found) : ∀ t ∈ found.tokens, t.lexeme.valid = true := by
  fun_induction scanFrom line col cs generalizing found with
  | case1 =>
    cases h
    exact fun t ht => absurd ht List.not_mem_nil
  | case2 line col cs ih => exact ih h
  | case3 line col c cs hline hgap ih => exact ih h
  | case4 line col c cs hline hgap hcomment ih => exact ih h
  | case5 => cases h
  | case6 line col c cs hline hgap hcomment l hread width =>
    rename_i ih
    obtain ⟨more, hmore, rfl⟩ := exists_of_map_eq_ok h
    exact List.forall_mem_cons.mpr ⟨readLexeme_valid hread, ih hmore⟩

/-- Every lexeme of a scanned text has the form of its class. -/
theorem scan_valid {text : String} {line : Int} {found : Scan} (h : scan text line = .ok found) :
    ∀ t ∈ found.tokens, t.lexeme.valid = true :=
  scanFrom_valid_tokens h

/-! ## Spelled lines -/

theorem Spelled.not_mem_newline {text : String} {ls : List Lexeme} (h : Spelled text ls) :
    '\n' ∉ text.toList := by
  induction h with
  | lexeme hl => exact not_mem_spelling hl
  | @negative digits hdigits =>
    have hnumber := not_mem_spelling (l := .number digits) hdigits
    simpa [Lexeme.spelling, Lexeme.text] using hnumber
  | spaced _ _ ih ih' => simp [ih, ih']
  | opened hsign _ ih =>
    rcases hsign with rfl | rfl <;> simp [Symbol.spelling, ih]
  | closed hsign _ ih =>
    rcases hsign with rfl | rfl | rfl <;> simp [Symbol.spelling, ih]

/-- A line that spells lexemes behind at least one step of indentation. -/
def Indented (ls : List Lexeme) (line : String) : Prop :=
  ∃ (count : Int) (text : String), 0 < count ∧ line = indentText count ++ text ∧ Spelled text ls

theorem indentText_toList (count : Int) :
    (indentText count).toList = List.replicate (4 * count.toNat) ' ' := by
  rw [indentText]
  induction count.toNat with
  | zero => rfl
  | succ n ih =>
    rw [List.replicate_succ, String.join_cons, String.toList_append, ih, Nat.mul_succ, Nat.add_comm,
      ← List.replicate_append_replicate]
    rfl

theorem scanFrom_blanks (line : Int) (count col : Nat) (cs : List Char) :
    scanFrom line col (List.replicate count ' ' ++ cs) = scanFrom line (col + count) cs := by
  induction count generalizing col with
  | zero => rfl
  | succ n ih =>
    rw [List.replicate_succ, List.cons_append, scanFrom_gap line col rfl, ih, Nat.add_assoc,
      Nat.add_comm 1]

/-- A line that spells lexemes from a column on. -/
theorem scanFrom_line {text : String} {ls : List Lexeme} (h : Spelled text ls) (line : Int)
    (col : Nat) :
    ∃ found, scanFrom line col text.toList = .ok found ∧ found.tokens.map Token.lexeme = ls ∧
      Placed line col found.tokens := by
  obtain ⟨ts, hts, hplace, hscan⟩ := scanFrom_spelled h line col breaks_nil
  rw [List.append_nil, scanFrom] at hscan
  exact ⟨_, hscan, by simpa using hts, by simpa using hplace⟩

/-- A text of one line that spells lexemes is scanned to these. -/
theorem scan_spelled {text : String} {ls : List Lexeme} (h : Spelled text ls) (line : Int) :
    ∃ found, scan text line = .ok found ∧ found.tokens.map Token.lexeme = ls ∧
      Placed line 1 found.tokens :=
  scanFrom_line h line 1

theorem scan_indented {text : String} {ls : List Lexeme} (h : Indented ls text) (line : Int) :
    ∃ found, scan text line = .ok found ∧ found.tokens.map Token.lexeme = ls ∧
      ∀ t ∈ found.tokens, 1 < t.pos.col := by
  obtain ⟨count, text, hcount, rfl, hspelled⟩ := h
  obtain ⟨found, hscan, hts, hplace⟩ := scanFrom_line hspelled line (1 + 4 * count.toNat)
  refine ⟨found, ?_, hts, fun t ht => ?_⟩
  · rw [scan, String.toList_append, indentText_toList, scanFrom_blanks, hscan]
  · have hcol := hplace.le_col t ht
    omega

theorem scanLines_cons_ok {line : Int} {first : String} {rest : List String} {above below : Scan}
    (hfirst : scan first line = .ok above) (hne : rest ≠ [])
    (hrest : scanLines (line + 1) rest = .ok below) :
    scanLines line (first :: rest) = .ok (above.followedBy below) := by
  rw [scanLines_cons line first hne, hfirst, hrest]
  rfl

/-- Indented lines are scanned one after the other; no token starts a line. -/
theorem scanLines_indented {ls : List Lexeme} {lines : List String}
    (h : Grammar.Many Indented ls lines) (hne : lines ≠ []) (line : Int) :
    ∃ found, scanLines line lines = .ok found ∧ found.tokens.map Token.lexeme = ls ∧
      ∀ t ∈ found.tokens, 1 < t.pos.col := by
  induction h generalizing line with
  | nil => exact absurd rfl hne
  | @cons ls ms first rest hfirst hrest ih =>
    obtain ⟨above, hscan, hts, hcol⟩ := scan_indented hfirst line
    cases hlast : rest with
    | nil =>
      subst hlast
      cases hrest
      exact ⟨above, hscan, by rw [hts, List.append_nil], hcol⟩
    | cons second others =>
      subst hlast
      obtain ⟨below, hbelow, hlexemes, hcols⟩ := ih (List.cons_ne_nil _ _) (line + 1)
      refine ⟨_, scanLines_cons_ok hscan (List.cons_ne_nil _ _) hbelow, ?_, fun t ht => ?_⟩
      · rw [Scan.followedBy, List.map_append, hts, hlexemes]
      · exact (List.mem_append.mp ht).elim (hcol t) (hcols t)

end Polyglot
