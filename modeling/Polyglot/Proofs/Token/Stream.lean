import Polyglot.Proofs.Token.Places

/-!
# Lexemes in any layout

The scanner passes over a line feed like over any other white space. So lexemes can be written with
any white space and any comments between them, and are scanned back whatever lines these make. What
the layout decides is which of them start a line.

Results:
1. `scan_laid`: lexemes are scanned back from any layout.
2. `scan_respelled`: the lexemes of a scanned text can be laid out anew.
3. `ScansLines.spelled`: a token in the first column is spelled at the start of a line.
-/

namespace Polyglot

/-! ## Lexemes in any layout -/

/-- A comment is passed over together with the end of its line. -/
theorem scanFrom_comment {body : List Char} (h : '\n' ∉ body) (line : Int) (col : Nat)
    (cs : List Char) :
    scanFrom line col ('-' :: '-' :: (body ++ '\n' :: cs)) = scanFrom (line + 1) 1 cs := by
  rw [scanFrom_hyphens, (takeWhile_line h _).2, List.dropWhile_cons_of_neg (by simp),
    scanFrom_newline]

/-- A text that is the lexemes in order, with a run between each two of them. -/
inductive Laid (Run : List Char → Prop) : List Lexeme → List Char → Prop
  | last (l : Lexeme) : Laid Run [l] l.spelling.toList
  | cons (l : Lexeme) {run cs : List Char} {ls : List Lexeme} : Run run → Laid Run ls cs →
      Laid Run (l :: ls) (l.spelling.toList ++ (run ++ cs))

/-- A run that separates lexemes: it starts with white space, and the scanner passes over it. -/
structure Separating (run : List Char) : Prop where
  opens : ∃ c ∈ run.head?, isSpace c = true
  passes : ∀ (line : Int) (col : Nat) (cs : List Char),
    ∃ line' col', scanFrom line col (run ++ cs) = scanFrom line' col' cs

/-- White space, and comments with the ends of their lines. -/
inductive Filler : List Char → Prop
  | nil : Filler []
  | space {c : Char} {cs : List Char} : isSpace c = true → Filler cs → Filler (c :: cs)
  | comment {body cs : List Char} : '\n' ∉ body → Filler cs →
      Filler ('-' :: '-' :: (body ++ '\n' :: cs))

theorem scanFrom_filler {filler : List Char} (h : Filler filler) (line : Int) (col : Nat)
    (cs : List Char) :
    ∃ line' col', scanFrom line col (filler ++ cs) = scanFrom line' col' cs := by
  induction h generalizing line col with
  | nil => exact ⟨line, col, rfl⟩
  | space hspace _ ih =>
    rw [isSpace, Bool.or_eq_true, beq_iff_eq] at hspace
    rcases hspace with hgap | rfl
    · rw [List.cons_append, scanFrom_gap line col hgap]
      exact ih line (col + 1)
    · rw [List.cons_append, scanFrom_newline]
      exact ih (line + 1) 1
  | @comment body filler hbody _ ih =>
    have hcut : '-' :: '-' :: (body ++ '\n' :: filler) ++ cs =
        '-' :: '-' :: (body ++ '\n' :: (filler ++ cs)) := by
      simp
    rw [hcut, scanFrom_comment hbody]
    exact ih (line + 1) 1

/-- What can stand between two lexemes: white space, and then more of it and comments. White space
comes first, so that no lexeme runs on and no hyphen opens a comment together with the next. -/
def IsRun (run : List Char) : Prop :=
  ∃ c filler, run = c :: filler ∧ isSpace c = true ∧ Filler filler

theorem IsRun.separating {run : List Char} (h : IsRun run) : Separating run := by
  obtain ⟨c, filler, rfl, hc, hfiller⟩ := h
  exact ⟨⟨c, rfl, hc⟩, scanFrom_filler (.space hc hfiller)⟩

/-- White space between lexemes. -/
def IsSpaces (run : List Char) : Prop :=
  run ≠ [] ∧ ∀ c ∈ run, isSpace c = true

theorem isSpaces_blank : IsSpaces [' '] :=
  ⟨List.cons_ne_nil _ _, List.forall_mem_singleton.mpr rfl⟩

theorem filler_of_isSpace {cs : List Char} (h : ∀ c ∈ cs, isSpace c = true) : Filler cs := by
  induction cs with
  | nil => exact .nil
  | cons c cs ih =>
    rw [List.forall_mem_cons] at h
    exact .space h.1 (ih h.2)

theorem IsSpaces.isRun {run : List Char} (h : IsSpaces run) : IsRun run := by
  obtain ⟨c, cs, rfl⟩ := List.exists_cons_of_ne_nil h.1
  obtain ⟨hc, hcs⟩ := List.forall_mem_cons.mp h.2
  exact ⟨c, cs, rfl, hc, filler_of_isSpace hcs⟩

theorem IsSpaces.separating {run : List Char} (h : IsSpaces run) : Separating run :=
  h.isRun.separating

theorem scanFrom_laid {Run : List Char → Prop} (hrun : ∀ run, Run run → Separating run)
    {ls : List Lexeme} {cs : List Char} (h : Laid Run ls cs) (hvalid : ∀ l ∈ ls, l.valid = true)
    (line : Int) (col : Nat) :
    ∃ found, scanFrom line col cs = .ok found ∧ found.tokens.map Token.lexeme = ls ∧
      found.tokens.head?.map Token.pos = some ⟨line, col⟩ := by
  induction h generalizing line col with
  | last l =>
    have hlast := scanFrom_valid (hvalid l List.mem_cons_self) breaks_nil line col
    rw [List.append_nil, scanFrom] at hlast
    exact ⟨_, hlast, rfl, rfl⟩
  | @cons l run cs ls hr _ ih =>
    rw [List.forall_mem_cons] at hvalid
    obtain ⟨⟨c, hc, hspace⟩, hpass⟩ := hrun run hr
    have hnext : SpaceAhead (run ++ cs) := by
      intro d hd
      rw [List.head?_append, hc] at hd
      cases hd
      exact hspace
    obtain ⟨line', col', hbehind⟩ := hpass line (col + l.spelling.toList.length) cs
    obtain ⟨found, hfound, hlexemes, _⟩ := ih hvalid.2 line' col'
    refine ⟨Scan.cons ⟨l, ⟨line, col⟩⟩ found, ?_, ?_, rfl⟩
    · rw [scanFrom_valid hvalid.1 (breaks_of_spaceAhead hnext), hbehind, hfound]
      rfl
    · rw [Scan.cons, List.map_cons, hlexemes]

/-- Lexemes are scanned back from any layout; the first stands where the text starts. -/
theorem scan_laid {Run : List Char → Prop} (hrun : ∀ run, Run run → Separating run)
    {ls : List Lexeme} {text : String} (h : Laid Run ls text.toList)
    (hvalid : ∀ l ∈ ls, l.valid = true) (line : Int) :
    ∃ found, scan text line = .ok found ∧ found.tokens.map Token.lexeme = ls ∧
      found.tokens.head?.map Token.pos = some ⟨line, 1⟩ :=
  scanFrom_laid hrun h hvalid line 1

/-- The lexemes in order, with a run between each two of them; no lexemes are the empty text. -/
inductive Respelled : List Lexeme → List Char → Prop
  | nil : Respelled [] []
  | laid {ls : List Lexeme} {cs : List Char} : Laid IsRun ls cs → Respelled ls cs

theorem scanFrom_respelled {ls : List Lexeme} {cs : List Char} (h : Respelled ls cs)
    (hvalid : ∀ l ∈ ls, l.valid = true) (line : Int) (col : Nat) :
    ∃ found, scanFrom line col cs = .ok found ∧ found.tokens.map Token.lexeme = ls := by
  cases h with
  | nil =>
    rw [scanFrom]
    exact ⟨_, rfl, rfl⟩
  | laid hlaid =>
    obtain ⟨found, hfound, hlexemes, _⟩ :=
      scanFrom_laid (fun _ => IsRun.separating) hlaid hvalid line col
    exact ⟨found, hfound, hlexemes⟩

/-- The lexemes of a scanned text can be written in another layout, on any lines. They are scanned
back, each with its class and its text. -/
theorem scan_respelled {text text' : String} {line : Int} {found : Scan}
    (h : scan text line = .ok found)
    (hlaid : Respelled (found.tokens.map Token.lexeme) text'.toList) (line' : Int) :
    ∃ found', scan text' line' = .ok found' ∧
      found'.tokens.map Token.lexeme = found.tokens.map Token.lexeme := by
  have hvalid : ∀ l ∈ found.tokens.map Token.lexeme, l.valid = true := by
    intro l hl
    obtain ⟨t, ht, rfl⟩ := List.mem_map.mp hl
    exact scan_valid h t ht
  exact scanFrom_respelled hlaid hvalid line' 1

/-- Two hyphens are two lexemes or a comment, an escaped quote ends no literal, and a symbol may be
the start of another. -/
theorem scan_respelled_hyphens :
    ∃ found found', scan "x<= -1.5- \"\\\"--\"" 1 = .ok found ∧
      scan "x --=\n<=\t-\r\n1.5 -----\n-\n\"\\\"--\"" 7 = .ok found' ∧
      found'.tokens.map Token.lexeme = found.tokens.map Token.lexeme := by
  let found : Scan := ⟨[⟨.ident "x", ⟨1, 1⟩⟩, ⟨.symbol .lessEq, ⟨1, 2⟩⟩, ⟨.symbol .minus, ⟨1, 5⟩⟩,
    ⟨.number "1.5", ⟨1, 6⟩⟩, ⟨.symbol .minus, ⟨1, 9⟩⟩, ⟨.string "\\\"--", ⟨1, 11⟩⟩], ⟨1, 17⟩⟩
  have hscan : scan "x<= -1.5- \"\\\"--\"" 1 = .ok found := by decide +kernel
  have hcomment {body : List Char} (h : '\n' ∉ body) :
      IsRun (' ' :: '-' :: '-' :: (body ++ ['\n'])) := ⟨' ', _, rfl, rfl, .comment h .nil⟩
  have hspaces {run : List Char} (h : run ≠ []) (hall : run.all isSpace = true) : IsRun run :=
    IsSpaces.isRun ⟨h, List.all_eq_true.mp hall⟩
  have hlaid : Respelled (found.tokens.map Token.lexeme)
      "x --=\n<=\t-\r\n1.5 -----\n-\n\"\\\"--\"".toList :=
    .laid (.cons (.ident "x") (hcomment (by decide : '\n' ∉ ['=']))
      (.cons (.symbol .lessEq) (hspaces (by decide : ['\t'] ≠ []) rfl)
      (.cons (.symbol .minus) (hspaces (by decide : ['\r', '\n'] ≠ []) rfl)
      (.cons (.number "1.5") (hcomment (by decide : '\n' ∉ ['-', '-', '-']))
      (.cons (.symbol .minus) (hspaces (by decide : ['\n'] ≠ []) rfl)
      (.last (.string "\\\"--")))))))
  obtain ⟨found', hfound, hlexemes⟩ := scan_respelled hscan hlaid 7
  exact ⟨found, found', hscan, hfound, hlexemes⟩

/-! ## The start of a line -/

theorem Scans.spelled_of_col {line : Int} {col last : Nat} {cs : List Char} {ts : List Token}
    (h : Scans line col cs ts last) {t : Token} (ht : t ∈ ts) (hcol : t.pos.col = col) :
    ∃ c ∈ cs.head?, isGap c = false ∧ c ∈ t.lexeme.spelling.toList.head? := by
  cases h with
  | finish | comment => cases ht
  | gap _ hrest =>
    have hright := (hrest.onLine.1 t ht).2.1
    exact absurd hcol (Nat.ne_of_gt hright)
  | @lexeme _ _ c part rest l ts hgap _ hspelling hrest =>
    rcases List.mem_cons.mp ht with rfl | ht
    · refine ⟨c, rfl, hgap, ?_⟩
      rw [hspelling]
      rfl
    · have hright := (hrest.onLine.1 t ht).2.1
      exact absurd hcol (Nat.ne_of_gt (Nat.lt_of_lt_of_le (Nat.lt_add_of_pos_right
        (Nat.succ_pos _)) hright))

/-- A token in the first column is spelled at the start of a line. -/
theorem ScansLines.spelled {line : Int} {lines : List String} {ts : List Token}
    (h : ScansLines line lines ts) {t : Token} (ht : t ∈ ts) (hcol : t.pos.col = 1) :
    ∃ content ∈ lines, ∃ c ∈ content.toList.head?, isGap c = false ∧
      c ∈ t.lexeme.spelling.toList.head? := by
  induction h with
  | nil => cases ht
  | @cons line last first rest ts us hfirst _ ih =>
    rcases List.mem_append.mp ht with ht | ht
    · exact ⟨first, List.mem_cons_self, hfirst.spelled_of_col ht hcol⟩
    · obtain ⟨content, hcontent, hspelled⟩ := ih ht
      exact ⟨content, List.mem_cons_of_mem first hcontent, hspelled⟩

end Polyglot
