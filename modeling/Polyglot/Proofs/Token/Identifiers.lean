import Polyglot.Proofs.Token.Places

/-!
# Words of a raw line as tokens

A raw line is cut into words at white space, and words are identifiers by the letters and numerals
of Unicode. The scanner knows ASCII only, and refuses what else a line holds outside of its string
literals and comments. So where a line can be scanned the two readings agree: blanks make no token
(`Scans.behind_blanks`), and an identifier makes one (`Scans.identifier`).
-/

namespace Polyglot

/-! ## Words -/

namespace Text

/-- Words are cut at a blank. -/
theorem words_append_blank {c : Char} (hc : isBlank c = true) (cs ds : List Char) :
    words (cs ++ c :: ds) = words cs ++ words ds := by
  rw [words, List.splitOnP_append_cons cs ds hc, List.filter_append]
  rfl

theorem words_cons_blank {c : Char} (hc : isBlank c = true) (cs : List Char) :
    words (c :: cs) = words cs := by
  rw [← List.nil_append (c :: cs), words_append_blank hc]
  rfl

/-- Without blanks there is one word. -/
theorem words_visible {cs : List Char} (hne : cs ≠ []) (h : ∀ c ∈ cs, isBlank c = false) :
    words cs = [cs] := by
  rw [words, List.splitOnP_eq_singleton h]
  simp [hne]

/-- The first word goes to the first blank. -/
theorem words_cons_visible {c : Char} (hc : isBlank c = false) (cs : List Char) :
    ∃ word rest, cs = word ++ rest ∧ (∀ d ∈ rest.head?, isBlank d = true) ∧
      words (c :: cs) = (c :: word) :: words rest := by
  have hcut : cs.takeWhile (fun d => !isBlank d) ++ cs.dropWhile (fun d => !isBlank d) = cs :=
    List.takeWhile_append_dropWhile
  have hword : ∀ d ∈ c :: cs.takeWhile (fun d => !isBlank d), isBlank d = false := by
    refine List.forall_mem_cons.mpr ⟨hc, fun d hd => ?_⟩
    simpa using List.all_eq_true.mp List.all_takeWhile d hd
  refine ⟨_, _, hcut.symm, fun d hd => ?_, ?_⟩
  · have hstop := List.head?_dropWhile_not (fun d => !isBlank d) cs
    rw [Option.mem_def.mp hd] at hstop
    simpa using hstop
  · cases hrest : cs.dropWhile (fun d => !isBlank d) with
    | nil =>
      rw [hrest, List.append_nil] at hcut
      rw [hcut] at hword ⊢
      exact words_visible (List.cons_ne_nil _ _) hword
    | cons d rest =>
      have hd : isBlank d = true := by
        have hstop := List.head?_dropWhile_not (fun d => !isBlank d) cs
        rw [hrest] at hstop
        simpa using hstop
      rw [words_cons_blank hd]
      conv_lhs => rw [← hcut, hrest]
      rw [← List.cons_append, words_append_blank hd, words_visible (List.cons_ne_nil _ _) hword]
      rfl

/-! ## Letters beyond ASCII -/

theorem le_of_inRanges {ranges : List (Nat × Nat)} {bound : Nat} {c : Char}
    (hranges : ∀ range ∈ ranges, bound ≤ range.1) (h : inRanges ranges c = true) :
    bound ≤ c.toNat := by
  obtain ⟨range, hrange, hin⟩ := List.any_eq_true.mp h
  rw [Bool.and_eq_true, decide_eq_true_eq, decide_eq_true_eq] at hin
  exact Nat.le_trans (hranges range hrange) hin.1

theorem isAlpha_of_isLetter {c : Char} (h : isLetter c = true) (hc : c.toNat < 0x7f) :
    c.isAlpha = true := by
  rw [isLetter, Bool.or_eq_true] at h
  refine h.resolve_right fun hbeyond => ?_
  have hranges : ∀ range ∈ letterRanges, 0x7f ≤ range.1 := by decide +kernel
  exact absurd (le_of_inRanges hranges hbeyond) (Nat.not_le.mpr hc)

theorem isDigit_of_isNumeral {c : Char} (h : isNumeral c = true) (hc : c.toNat < 0x7f) :
    c.isDigit = true := by
  rw [isNumeral, Bool.or_eq_true] at h
  refine h.resolve_right fun hbeyond => ?_
  have hranges : ∀ range ∈ numeralRanges, 0x7f ≤ range.1 := by decide +kernel
  exact absurd (le_of_inRanges hranges hbeyond) (Nat.not_le.mpr hc)

end Text

theorem isNamePart_of_isNameChar {c : Char} (h : Text.isNameChar c = true) (hc : c.toNat < 0x7f) :
    isNamePart c = true := by
  simp only [Text.isNameChar, Bool.or_eq_true] at h
  simp only [isNamePart, Char.isAlphanum, Bool.or_eq_true]
  exact h.imp_left (Or.imp (Text.isAlpha_of_isLetter · hc) (Text.isDigit_of_isNumeral · hc))

theorem isNameStart_of_isLetter {c : Char} (h : Text.isLetter c = true ∨ c = '_')
    (hc : c.toNat < 0x7f) : isNameStart c = true := by
  rw [isNameStart, Bool.or_eq_true, beq_iff_eq]
  exact h.imp_left (Text.isAlpha_of_isLetter · hc)

/-! ## The start of a line that can be scanned -/

/-- Every lexeme starts with a visible character of ASCII. -/
theorem visible_of_readLexeme {c : Char} {cs : List Char} {l : Lexeme}
    (h : readLexeme c cs = .ok l) : 0x20 < c.toNat ∧ c.toNat < 0x7f := by
  obtain ⟨part, _, hspelling, _, _⟩ := readLexeme_spelling h
  unfold readLexeme at h
  split at h
  · next hdigit => exact visible_of_isNamePart (isNamePart_of_isDigit hdigit)
  · split at h
    · next hquote =>
      rw [hquote]
      exact ⟨by decide, by decide⟩
    · split at h
      · next hname => exact visible_of_isNamePart (isNamePart_of_isNameStart hname)
      · split at h
        · next sign _ =>
          cases h
          cases sign <;> cases hspelling <;> exact ⟨by decide, by decide⟩
        · cases h

namespace Scans

variable {line : Int} {col last : Nat} {ts : List Token}

theorem ascii {c : Char} {cs : List Char} (h : Scans line col (c :: cs) ts last) :
    c.toNat < 0x7f := by
  cases h with
  | gap hgap _ =>
    simp only [isGap, Bool.or_eq_true, beq_iff_eq] at hgap
    rcases hgap with (rfl | rfl) | rfl <;> decide
  | comment => decide
  | lexeme _ hread _ _ => exact (visible_of_readLexeme hread).2

/-- Blanks make no token. -/
theorem behind_blank {c : Char} {cs : List Char} (hc : Text.isBlank c = true)
    (h : Scans line col (c :: cs) ts last) : ∃ col', Scans line col' cs ts last := by
  cases h with
  | gap _ hrest => exact ⟨_, hrest⟩
  | comment => exact absurd hc (by decide)
  | lexeme _ hread _ _ =>
    -- a blank that is no gap is refused by the scanner
    have hvisible := visible_of_readLexeme hread
    rw [isBlank_of_visible hvisible.1 hvisible.2] at hc
    cases hc

theorem behind_blanks {blanks cs : List Char} (hblanks : ∀ c ∈ blanks, Text.isBlank c = true)
    (h : Scans line col (blanks ++ cs) ts last) : ∃ col', Scans line col' cs ts last := by
  induction blanks generalizing col with
  | nil => exact ⟨col, h⟩
  | cons c blanks ih =>
    rw [List.forall_mem_cons] at hblanks
    obtain ⟨col', hrest⟩ := h.behind_blank hblanks.1
    exact ih hblanks.2 hrest

/-- Where a name starts, there is a lexeme that takes all the characters of names. -/
theorem word {c : Char} {cs : List Char} (hc : isNameStart c = true)
    (h : Scans line col (c :: cs) ts last) :
    ∃ part rest us, cs = part ++ rest ∧ (∀ d ∈ part, isNamePart d = true) ∧
      (∀ d ∈ rest.head?, isNamePart d = false) ∧
      ts = ⟨Lexeme.ofWord (String.ofList (c :: part)), ⟨line, col⟩⟩ :: us ∧
      Scans line (col + (part.length + 1)) rest us last := by
  cases h with
  | gap hgap _ =>
    simp only [isGap, Bool.or_eq_true, beq_iff_eq] at hgap
    rcases hgap with (rfl | rfl) | rfl <;> exact absurd hc (by decide)
  | comment => exact absurd hc (by decide)
  | @lexeme _ _ _ part rest l us _ hread hspelling hrest =>
    have hcut : (part ++ rest).takeWhile isNamePart ++ (part ++ rest).dropWhile isNamePart =
        part ++ rest := List.takeWhile_append_dropWhile
    rw [readLexeme_of_isNameStart hc] at hread
    cases hread
    rw [Lexeme.spelling_ofWord, String.toList_ofList] at hspelling
    have hpart : (part ++ rest).takeWhile isNamePart = part := (List.cons.inj hspelling).2
    rw [hpart] at hcut ⊢
    have hdrop : (part ++ rest).dropWhile isNamePart = rest := List.append_cancel_left hcut
    refine ⟨part, rest, us, rfl, ?_, fun d hd => ?_, rfl, hrest⟩
    · rw [← hpart]
      exact List.all_eq_true.mp List.all_takeWhile
    · have hstop := List.head?_dropWhile_not isNamePart (part ++ rest)
      rw [hdrop, Option.mem_def.mp hd] at hstop
      simpa using hstop

/-- An identifier of a line that can be scanned is one of its tokens. -/
theorem identifier {name rest : List Char} (hname : Text.isIdentifier name = true)
    (hrest : ∀ c ∈ rest.head?, isNamePart c = false)
    (h : Scans line col (name ++ rest) ts last) :
    ∃ us col', ts = ⟨Lexeme.ofWord (String.ofList name), ⟨line, col⟩⟩ :: us ∧
      Scans line col' rest us last := by
  cases name with
  | nil => cases hname
  | cons c cs =>
    rw [Text.isIdentifier, Bool.and_eq_true, Bool.or_eq_true, beq_iff_eq, List.all_eq_true] at hname
    obtain ⟨part, rest', us, hcut, hpart, hstop, rfl, hscans⟩ :=
      h.word (isNameStart_of_isLetter hname.1 h.ascii)
    -- a letter beyond ASCII would end the word early, but the scanner refuses it
    obtain ⟨rfl, rfl⟩ : part = cs ∧ rest' = rest := by
      rcases List.append_eq_append_iff.mp hcut with ⟨as, rfl, hrest'⟩ | ⟨as, rfl, rfl⟩
      · cases as with
        | nil => exact ⟨(List.append_nil cs), hrest'.symm⟩
        | cons d as =>
          have hd := hpart d (List.mem_append_right cs List.mem_cons_self)
          rw [hrest d (by rw [hrest']; rfl)] at hd
          cases hd
      · cases as with
        | nil => exact ⟨(List.append_nil part).symm, rfl⟩
        | cons d as =>
          have hd := hname.2 d (List.mem_append_right part List.mem_cons_self)
          have hnot := hstop d rfl
          rw [List.cons_append] at hscans
          rw [isNamePart_of_isNameChar hd hscans.ascii] at hnot
          cases hnot
    exact ⟨us, _, rfl, hscans⟩

end Scans

end Polyglot
