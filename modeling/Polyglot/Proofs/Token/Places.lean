import Polyglot.Proofs.Token.Lines

/-!
# Where tokens stand

A line that can be scanned is a sequence of gaps and lexemes, with a comment behind them or not.
`Scans` says so step by step, and with it each token stands where its lexeme is spelled.

Results:
1. `scans_of_scanFrom`, `scansLines_of_scan`: what the scanner makes of a line, and of the lines of
   a text, if it can scan them.
2. `inLines_of_scan`, `inLines_of_scan_error`: the tokens of a text, its end and what is wrong with
   it stand in its lines, or right behind one of them.
-/

namespace Polyglot

/-! ## Lines that can be scanned -/

/-- The characters from the column `col` of a line on are scanned to the tokens, and the line ends
in the column `last`. -/
inductive Scans (line : Int) : (col : Nat) → List Char → List Token → (last : Nat) → Prop
  | finish {col : Nat} : Scans line col [] [] col
  | gap {col last : Nat} {c : Char} {cs : List Char} {ts : List Token} : isGap c = true →
      Scans line (col + 1) cs ts last → Scans line col (c :: cs) ts last
  /-- A comment takes no room. -/
  | comment {col : Nat} {cs : List Char} : Scans line col ('-' :: '-' :: cs) [] col
  | lexeme {col last : Nat} {c : Char} {part rest : List Char} {l : Lexeme} {ts : List Token} :
      isGap c = false → readLexeme c (part ++ rest) = .ok l → l.spelling.toList = c :: part →
      Scans line (col + (part.length + 1)) rest ts last →
      Scans line col (c :: (part ++ rest)) (⟨l, ⟨line, col⟩⟩ :: ts) last

theorem scans_of_scanFrom {line : Int} {col : Nat} {cs : List Char} {found : Scan}
    (hline : '\n' ∉ cs) (h : scanFrom line col cs = .ok found) :
    Scans line col cs found.tokens found.finish.col ∧ found.finish.line = line := by
  fun_induction scanFrom line col cs generalizing found with
  | case1 line col =>
    cases h
    exact ⟨.finish, rfl⟩
  | case2 line col cs => exact absurd List.mem_cons_self hline
  | case3 line col c cs _ hgap ih =>
    obtain ⟨hrest, hfinish⟩ := ih (fun hmem => hline (List.mem_cons_of_mem c hmem)) h
    exact ⟨.gap hgap hrest, hfinish⟩
  | case4 line col c cs _ hgap hcomment =>
    obtain ⟨rfl, hnext⟩ := hcomment
    obtain ⟨cs, rfl⟩ := List.head?_eq_some_iff.mp hnext
    -- on one line nothing is left behind a comment
    rw [dropWhile_line_last fun hmem => hline (List.mem_cons_of_mem '-' hmem), scanFrom] at h
    cases h
    exact ⟨.comment, rfl⟩
  | case5 => cases h
  | case6 line col c cs hc hgap hcomment l hread width =>
    rename_i ih
    obtain ⟨part, rest, hspelling, hwidth, rfl⟩ := readLexeme_spelling hread
    rw [show width = part.length + 1 from hwidth, Nat.add_sub_cancel, List.drop_left] at ih h
    obtain ⟨more, hmore, rfl⟩ := exists_of_map_eq_ok h
    obtain ⟨hrest, hfinish⟩ := ih (fun hmem => hline (by simp [hmem])) hmore
    exact ⟨.lexeme (by simpa using hgap) hread hspelling hrest, hfinish⟩

/-- The tokens of lines are those of the first line, and then those of the others. -/
inductive ScansLines : (line : Int) → List String → List Token → Prop
  | nil {line : Int} : ScansLines line [] []
  | cons {line : Int} {last : Nat} {first : String} {rest : List String} {ts us : List Token} :
      Scans line 1 first.toList ts last → ScansLines (line + 1) rest us →
      ScansLines line (first :: rest) (ts ++ us)

theorem ScansLines.exists_cons {line : Int} {first : String} {rest : List String}
    {all : List Token} (h : ScansLines line (first :: rest) all) :
    ∃ ts us last, Scans line 1 first.toList ts last ∧ ScansLines (line + 1) rest us ∧
      all = ts ++ us := by
  cases h with
  | cons hfirst hrest => exact ⟨_, _, _, hfirst, hrest, rfl⟩

theorem scansLines_of_scanLines {line : Int} {lines : List String} {found : Scan}
    (hlines : ∀ content ∈ lines, '\n' ∉ content.toList) (h : scanLines line lines = .ok found) :
    ScansLines line lines found.tokens := by
  fun_induction scanLines line lines generalizing found with
  | case1 line =>
    cases h
    exact .nil
  | case2 line last =>
    have hlast := (scans_of_scanFrom (hlines last List.mem_cons_self) h).1
    rw [← List.append_nil found.tokens]
    exact .cons hlast .nil
  | case3 line first rest hrest ih =>
    rw [List.forall_mem_cons] at hlines
    obtain ⟨above, habove, hmore⟩ := exists_of_bind_eq_ok h
    obtain ⟨below, hbelow, hmade⟩ := exists_of_bind_eq_ok hmore
    cases hmade
    exact .cons (scans_of_scanFrom hlines.1 habove).1 (ih hlines.2 hbelow)

theorem scansLines_of_scan {text : String} {line : Int} {found : Scan}
    (h : scan text line = .ok found) : ScansLines line (Text.lines text) found.tokens := by
  rw [scan_eq_scanLines] at h
  exact scansLines_of_scanLines (fun _ => not_mem_of_mem_lines) h

/-! ## Places on a line -/

/-- A place on the stretch of `width` characters from the column `col` of a line on, or right behind
that stretch. -/
def Position.OnLine (line : Int) (col width : Nat) (pos : Position) : Prop :=
  pos.line = line ∧ col ≤ pos.col ∧ pos.col ≤ col + width

theorem Position.OnLine.behind {line : Int} {col count width : Nat} {pos : Position}
    (h : pos.OnLine line (col + count) width) : pos.OnLine line col (count + width) := by
  obtain ⟨hline, hlow, hhigh⟩ := h
  refine ⟨hline, Nat.le_trans (Nat.le_add_right col count) hlow, ?_⟩
  rwa [← Nat.add_assoc]

theorem Scans.onLine {line : Int} {col last : Nat} {cs : List Char} {ts : List Token}
    (h : Scans line col cs ts last) :
    (∀ t ∈ ts, t.pos.OnLine line col cs.length) ∧
      Position.OnLine line col cs.length ⟨line, last⟩ := by
  induction h with
  | finish => exact ⟨fun t ht => absurd ht List.not_mem_nil, rfl, Nat.le_refl _, Nat.le_refl _⟩
  | @gap col last c cs ts _ _ ih =>
    rw [List.length_cons, Nat.add_comm]
    exact ⟨fun t ht => (ih.1 t ht).behind, ih.2.behind⟩
  | comment =>
    exact ⟨fun t ht => absurd ht List.not_mem_nil, rfl, Nat.le_refl _, Nat.le_add_right _ _⟩
  | @lexeme col last c part rest l ts _ _ _ _ ih =>
    have hlength : (c :: (part ++ rest)).length = part.length + 1 + rest.length := by
      rw [List.length_cons, List.length_append, Nat.add_right_comm]
    rw [hlength]
    refine ⟨List.forall_mem_cons.mpr ⟨?_, fun t ht => (ih.1 t ht).behind⟩, ih.2.behind⟩
    exact ⟨rfl, Nat.le_refl _, Nat.le_add_right _ _⟩

/-- The tokens of a line stand one right of the other. -/
theorem Scans.sorted {line : Int} {col last : Nat} {cs : List Char} {ts : List Token}
    (h : Scans line col cs ts last) : ts.Pairwise fun t u => t.pos.col < u.pos.col := by
  induction h with
  | finish | comment => exact .nil
  | gap _ _ ih => exact ih
  | @lexeme col last c part rest l ts _ _ _ hrest ih =>
    refine .cons (fun t ht => ?_) ih
    have hbehind := (hrest.onLine.1 t ht).2.1
    exact Nat.lt_of_lt_of_le (Nat.lt_add_of_pos_right (Nat.succ_pos _)) hbehind

/-- A string literal is wrong as a whole, or at one of its characters. -/
theorem stringChars_error {offset : Nat} {cs : List Char} {problem : Problem} {distance : Nat}
    (h : stringChars offset cs = .error (problem, distance)) :
    distance = 0 ∨ distance < offset + cs.length := by
  fun_induction stringChars offset cs with
  | case1 =>
    cases h
    exact .inl rfl
  | case2 => cases h
  | case3 =>
    cases h
    exact .inl rfl
  | case4 offset =>
    cases h
    exact .inr (Nat.lt_succ_self _)
  | case5 offset c cs hescape ih =>
    rcases bind_eq_error h with hrest | ⟨_, _, hmade⟩
    · refine (ih hrest).imp_right fun hlt => ?_
      rwa [List.length_cons, List.length_cons, Nat.add_assoc, Nat.add_comm 1, ← Nat.add_assoc,
        Nat.add_right_comm]
    · cases hmade
  | case6 offset c cs hescape =>
    cases h
    exact .inr (Nat.lt_add_of_pos_right (Nat.succ_pos _))
  | case7 offset c cs _ _ _ _ ih =>
    rcases bind_eq_error h with hrest | ⟨_, _, hmade⟩
    · refine (ih hrest).imp_right fun hlt => ?_
      rwa [List.length_cons, ← Nat.add_assoc, Nat.add_right_comm]
    · cases hmade

theorem readLexeme_error {c : Char} {cs : List Char} {problem : Problem} {distance : Nat}
    (h : readLexeme c cs = .error (problem, distance)) : distance ≤ cs.length := by
  unfold readLexeme at h
  split at h
  · cases h
  · split at h
    · rcases bind_eq_error h with hbody | ⟨_, _, hmade⟩
      · rcases stringChars_error hbody with rfl | hlt
        · exact Nat.zero_le _
        · rw [Nat.add_comm] at hlt
          exact Nat.le_of_lt_succ hlt
      · cases hmade
    · split at h
      · cases h
      · split at h
        · cases h
        · cases h
          exact Nat.zero_le _

theorem onLine_of_scanFrom_error {line : Int} {col : Nat} {cs : List Char} {d : Diagnostic}
    (hline : '\n' ∉ cs) (h : scanFrom line col cs = .error d) :
    d.pos.OnLine line col cs.length := by
  fun_induction scanFrom line col cs with
  | case1 => cases h
  | case2 line col cs => exact absurd List.mem_cons_self hline
  | case3 line col c cs _ hgap ih =>
    rw [List.length_cons, Nat.add_comm]
    exact (ih (fun hmem => hline (List.mem_cons_of_mem c hmem)) h).behind
  | case4 line col c cs _ hgap hcomment =>
    rw [dropWhile_line_last fun hmem => hline (List.mem_cons_of_mem c hmem), scanFrom] at h
    cases h
  | case5 line col c cs _ hgap hcomment problem distance hread =>
    cases h
    have hle := Nat.le_succ_of_le (readLexeme_error hread)
    exact ⟨rfl, Nat.le_add_right col distance, Nat.add_le_add_left hle col⟩
  | case6 line col c cs _ hgap hcomment l hread width ih =>
    obtain ⟨part, rest, _, hwidth, rfl⟩ := readLexeme_spelling hread
    rw [show width = part.length + 1 from hwidth, Nat.add_sub_cancel, List.drop_left] at ih h
    have hrest := error_of_map_eq_error h
    rw [List.length_cons, List.length_append, Nat.add_right_comm]
    exact (ih (fun hmem => hline (by simp [hmem])) hrest).behind

/-! ## Places in a text -/

/-- A place in lines the first of which has the number `line`, or right behind one of them. -/
def Position.InLines (line : Int) (lines : List String) (pos : Position) : Prop :=
  ∃ (k : Nat) (content : String), lines[k]? = some content ∧ pos.OnLine (line + k) 1 content.length

theorem Position.InLines.first {line : Int} {first : String} {rest : List String} {pos : Position}
    (h : pos.OnLine line 1 first.toList.length) : pos.InLines line (first :: rest) := by
  refine ⟨0, first, rfl, ?_⟩
  rwa [Int.natCast_zero, Int.add_zero, ← String.length_toList]

theorem Position.InLines.later {line : Int} {first : String} {rest : List String} {pos : Position}
    (h : pos.InLines (line + 1) rest) : pos.InLines line (first :: rest) := by
  obtain ⟨k, content, hcontent, hplace⟩ := h
  refine ⟨k + 1, content, hcontent, ?_⟩
  rwa [Int.natCast_add, Int.natCast_one, Int.add_comm k, ← Int.add_assoc]

theorem inLines_of_scanLines {line : Int} {lines : List String} {found : Scan} (hne : lines ≠ [])
    (hlines : ∀ content ∈ lines, '\n' ∉ content.toList) (h : scanLines line lines = .ok found) :
    (∀ t ∈ found.tokens, t.pos.InLines line lines) ∧ found.finish.InLines line lines := by
  fun_induction scanLines line lines generalizing found with
  | case1 => exact absurd rfl hne
  | case2 line last =>
    obtain ⟨hlast, hline⟩ := scans_of_scanFrom (hlines last List.mem_cons_self) h
    obtain ⟨htokens, hfinish⟩ := hlast.onLine
    exact ⟨fun t ht => .first (htokens t ht), .first ⟨hline, hfinish.2⟩⟩
  | case3 line first rest hrest ih =>
    rw [List.forall_mem_cons] at hlines
    obtain ⟨above, habove, hmore⟩ := exists_of_bind_eq_ok h
    obtain ⟨below, hbelow, hmade⟩ := exists_of_bind_eq_ok hmore
    cases hmade
    obtain ⟨htokens, hfinish⟩ := ih hrest hlines.2 hbelow
    refine ⟨fun t ht => ?_, hfinish.later⟩
    rcases List.mem_append.mp ht with ht | ht
    · exact .first ((scans_of_scanFrom hlines.1 habove).1.onLine.1 t ht)
    · exact (htokens t ht).later

theorem inLines_of_scanLines_error {line : Int} {lines : List String} {d : Diagnostic}
    (hlines : ∀ content ∈ lines, '\n' ∉ content.toList) (h : scanLines line lines = .error d) :
    d.pos.InLines line lines := by
  fun_induction scanLines line lines with
  | case1 => cases h
  | case2 line last => exact .first (onLine_of_scanFrom_error (hlines last List.mem_cons_self) h)
  | case3 line first rest hrest ih =>
    rw [List.forall_mem_cons] at hlines
    rcases bind_eq_error h with hfirst | ⟨_, _, hmore⟩
    · exact .first (onLine_of_scanFrom_error hlines.1 hfirst)
    · rcases bind_eq_error hmore with hscan | ⟨_, _, hmade⟩
      · exact (ih hlines.2 hscan).later
      · cases hmade

theorem inLines_of_scan {text : String} {line : Int} {found : Scan}
    (h : scan text line = .ok found) :
    (∀ t ∈ found.tokens, t.pos.InLines line (Text.lines text)) ∧
      found.finish.InLines line (Text.lines text) := by
  rw [scan_eq_scanLines] at h
  exact inLines_of_scanLines (Text.lines_ne_nil text) (fun _ => not_mem_of_mem_lines) h

theorem inLines_of_scan_error {text : String} {line : Int} {d : Diagnostic}
    (h : scan text line = .error d) : d.pos.InLines line (Text.lines text) := by
  rw [scan_eq_scanLines] at h
  exact inLines_of_scanLines_error (fun _ => not_mem_of_mem_lines) h

end Polyglot
