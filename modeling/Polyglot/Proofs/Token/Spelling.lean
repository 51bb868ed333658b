import Polyglot.Proofs.Token.Below

/-!
# Spelling and scanning

A valid lexeme that is written down with a break behind it is read back. `Spelled cs ls` says that
a line `cs` without comments spells the lexemes `ls` in the way the printers of this library write
them: with blanks between them, except that some symbols cling to what they open or close.

Result: `scanFrom_spelled`: a spelled line is scanned to its lexemes, the first in the column where
the line starts and the others right of it.
-/

namespace Polyglot

/-! ## Lexemes before a break -/

/-- The characters that no lexeme runs over. -/
def isBreak (c : Char) : Bool :=
  isSpace c || c == ',' || c == ')' || c == ':'

/-- What can stand behind a lexeme: nothing, or a break. -/
def Breaks (rest : List Char) : Prop :=
  ∀ c ∈ rest.head?, isBreak c = true

theorem breaks_nil : Breaks [] := by
  intro c hc
  cases hc

theorem breaks_cons {c : Char} {rest : List Char} (h : isBreak c = true) : Breaks (c :: rest) := by
  intro d hd
  cases hd
  exact h

theorem breaks_of_spaceAhead {rest : List Char} (h : SpaceAhead rest) : Breaks rest := by
  intro c hc
  rw [isBreak, h c hc]
  rfl

theorem eq_of_isBreak {c : Char} (h : isBreak c = true) :
    c = ' ' ∨ c = '\t' ∨ c = '\r' ∨ c = '\n' ∨ c = ',' ∨ c = ')' ∨ c = ':' := by
  simpa [isBreak, isSpace, isGap, or_assoc] using h

/-- A class of characters without breaks ends before a break. -/
theorem takeWhile_of_breaks {p : Char → Bool} {cs rest : List Char} (hall : ∀ c ∈ cs, p c = true)
    (hp : ∀ c, isBreak c = true → p c = false) (hrest : Breaks rest) :
    (cs ++ rest).takeWhile p = cs ∧ (cs ++ rest).dropWhile p = rest :=
  List.takeWhile_of_head hall fun c hc => hp c (hrest c hc)

theorem isDigit_of_isBreak {c : Char} (h : isBreak c = true) : c.isDigit = false := by
  rcases eq_of_isBreak h with rfl | rfl | rfl | rfl | rfl | rfl | rfl <;> decide

theorem isNamePart_of_isBreak {c : Char} (h : isBreak c = true) : isNamePart c = false := by
  rcases eq_of_isBreak h with rfl | rfl | rfl | rfl | rfl | rfl | rfl <;> decide

theorem numberChars_append {cs rest : List Char} (h : isNumeral cs = true) (hrest : Breaks rest) :
    numberChars (cs ++ rest) = cs := by
  obtain ⟨whole, fraction, rfl, _, hwhole, hfraction⟩ := isNumeral_iff.mp h
  rcases hfraction with rfl | ⟨d, ds, rfl, hds⟩
  · obtain ⟨htake, hdrop⟩ := takeWhile_of_breaks hwhole (fun _ => isDigit_of_isBreak) hrest
    rw [List.append_nil, numberChars, htake, hdrop]
    split
    · next d ds =>
      exact absurd (hrest '.' rfl) (by decide)
    · rfl
  · have hd : d.isDigit = true := hds d (List.mem_cons_self)
    obtain ⟨htake, _⟩ := takeWhile_of_breaks (fun c hc => hds c (List.mem_cons_of_mem d hc))
      (fun _ => isDigit_of_isBreak) hrest
    have hpoint : Char.isDigit '.' = false := by decide
    rw [numberChars, List.append_assoc, List.takeWhile_append_of_pos hwhole,
      List.dropWhile_append_of_pos hwhole, List.cons_append, List.cons_append,
      List.takeWhile_cons_of_neg (by simp [hpoint]),
      List.dropWhile_cons_of_neg (by simp [hpoint])]
    simp only [hd, if_true, List.append_nil, htake]

theorem stringChars_append {body : List Char} (h : isStringBody body = true) (rest : List Char)
    (offset : Nat) : stringChars offset (body ++ '"' :: rest) = .ok body := by
  fun_induction isStringBody body generalizing offset with
  | case1 => rfl
  | case2 => cases h
  | case3 c cs ih =>
    rw [Bool.and_eq_true] at h
    simp only [List.cons_append, stringChars, h.1, if_true, ih h.2]
    rfl
  | case4 c cs hlast hescape ih =>
    simp only [Bool.and_eq_true, bne_iff_ne, ne_eq] at h
    rw [List.cons_append, stringChars_cons h.1.1 h.1.2 (ne_backslash hlast hescape), ih h.2]
    rfl

theorem read?_symbol (sign : Symbol) {rest : List Char} (hrest : Breaks rest) :
    Symbol.read? (sign.spelling.toList ++ rest) = some sign := by
  cases rest with
  | nil => cases sign <;> rfl
  | cons c rest =>
    rcases eq_of_isBreak (hrest c rfl) with rfl | rfl | rfl | rfl | rfl | rfl | rfl <;> cases sign <;> rfl

/-! ## One lexeme of a text -/

/-- Tokens that were scanned, before the tokens that remain to be. -/
def prepend (ts : List Token) (rest : Except Diagnostic Scan) : Except Diagnostic Scan :=
  rest.map fun found => ⟨ts ++ found.tokens, found.finish⟩

theorem prepend_prepend (ts us : List Token) (rest : Except Diagnostic Scan) :
    prepend ts (prepend us rest) = prepend (ts ++ us) rest := by
  cases rest with
  | error d => rfl
  | ok found => simp [prepend, Except.map]

theorem scanFrom_lexeme {l : Lexeme} {c : Char} {cs rest : List Char}
    (hspelling : l.spelling.toList = c :: cs) (hspace : isSpace c = false)
    (hcomment : ¬ (c = '-' ∧ (cs ++ rest).head? = some '-'))
    (hread : readLexeme c (cs ++ rest) = .ok l) (line : Int) (col : Nat) :
    scanFrom line col (l.spelling.toList ++ rest) =
      prepend [⟨l, ⟨line, col⟩⟩] (scanFrom line (col + l.spelling.toList.length) rest) := by
  rw [hspelling, List.cons_append, scanFrom_read hspace hcomment hread hspelling]
  rfl

theorem readLexeme_of_isNameStart {c : Char} (h : isNameStart c = true) (cs : List Char) :
    readLexeme c cs = .ok (Lexeme.ofWord (String.ofList (c :: cs.takeWhile isNamePart))) := by
  have hquote : c ≠ '"' := by
    rintro rfl
    exact absurd h (by decide)
  rw [readLexeme, if_neg (by simp [isDigit_of_isNameStart h]), if_neg hquote, if_pos h]

theorem readLexeme_word {c : Char} {cs rest : List Char} (hname : isName (c :: cs) = true)
    (hrest : Breaks rest) :
    readLexeme c (cs ++ rest) = .ok (Lexeme.ofWord (String.ofList (c :: cs))) := by
  rw [isName, Bool.and_eq_true] at hname
  have hword := (takeWhile_of_breaks (List.all_eq_true.mp hname.2)
    (fun _ => isNamePart_of_isBreak) hrest).1
  rw [readLexeme_of_isNameStart hname.1, hword]

theorem readLexeme_string {body : String} (h : isStringBody body.toList = true)
    (rest : List Char) : readLexeme '"' (body.toList ++ '"' :: rest) = .ok (.string body) := by
  rw [readLexeme, if_neg (by decide), if_pos rfl, stringChars_append h rest 1]
  simp [bind, Except.bind, pure, Except.pure]

/-- No symbol starts like a lexeme of another class. -/
theorem readLexeme_symbol {sign found : Symbol} {c : Char} {part cs : List Char}
    (h : sign.spelling.toList = c :: part) (hread : Symbol.read? (c :: cs) = some found) :
    readLexeme c cs = .ok (.symbol found) := by
  have hfirst : c.isDigit = false ∧ c ≠ '"' ∧ isNameStart c = false := by
    cases sign <;> cases h <;> decide
  rw [readLexeme, if_neg (by simp [hfirst.1]), if_neg hfirst.2.1, if_neg (by simp [hfirst.2.2]),
    hread]

/-- A word is scanned as the lexeme it stands for. -/
theorem scanFrom_word {l : Lexeme} (hname : isName l.spelling.toList = true)
    (hl : Lexeme.ofWord l.spelling = l) {rest : List Char} (hrest : Breaks rest) (line : Int)
    (col : Nat) :
    scanFrom line col (l.spelling.toList ++ rest) =
      prepend [⟨l, ⟨line, col⟩⟩] (scanFrom line (col + l.spelling.toList.length) rest) := by
  cases hspelling : l.spelling.toList with
  | nil =>
    rw [hspelling] at hname
    cases hname
  | cons c cs =>
    rw [hspelling] at hname
    have hstart : isNameStart c = true := by
      rw [isName, Bool.and_eq_true] at hname
      exact hname.1
    rw [← hspelling]
    refine scanFrom_lexeme hspelling (isSpace_of_isNamePart (isNamePart_of_isNameStart hstart)) ?_ ?_
      line col
    · rintro ⟨rfl, _⟩
      exact absurd hstart (by decide)
    · rw [readLexeme_word hname hrest, ← hspelling, String.ofList_toList, hl]

theorem scanFrom_number {digits : String} (h : isNumeral digits.toList = true) {rest : List Char}
    (hrest : Breaks rest) (line : Int) (col : Nat) :
    scanFrom line col (digits.toList ++ rest) =
      prepend [⟨.number digits, ⟨line, col⟩⟩]
        (scanFrom line (col + digits.toList.length) rest) := by
  cases hspelling : digits.toList with
  | nil =>
    rw [hspelling] at h
    cases h
  | cons c cs =>
    have hdigit : c.isDigit = true := isDigit_of_isNumeral (hspelling ▸ h)
    rw [← hspelling]
    refine scanFrom_lexeme (l := .number digits) hspelling
      (isSpace_of_isNamePart (isNamePart_of_isDigit hdigit)) ?_ ?_ line col
    · rintro ⟨rfl, _⟩
      exact absurd hdigit (by decide)
    · rw [readLexeme, if_pos hdigit, ← List.cons_append, ← hspelling,
        numberChars_append h hrest, String.ofList_toList]

theorem scanFrom_string {body : String} (h : isStringBody body.toList = true) (rest : List Char)
    (line : Int) (col : Nat) :
    scanFrom line col ((Lexeme.string body).spelling.toList ++ rest) =
      prepend [⟨.string body, ⟨line, col⟩⟩]
        (scanFrom line (col + (Lexeme.string body).spelling.toList.length) rest) := by
  have hspelling : (Lexeme.string body).spelling.toList = '"' :: (body.toList ++ ['"']) := by
    simp [Lexeme.spelling]
  refine scanFrom_lexeme hspelling (by decide) ?_ ?_ line col
  · rintro ⟨hquote, _⟩
    exact absurd hquote (by decide)
  · rw [List.append_assoc, List.singleton_append]
    exact readLexeme_string h rest

theorem scanFrom_symbol (sign : Symbol) {rest : List Char}
    (hread : Symbol.read? (sign.spelling.toList ++ rest) = some sign)
    (hcomment : sign = .minus → rest.head? ≠ some '-') (line : Int) (col : Nat) :
    scanFrom line col (sign.spelling.toList ++ rest) =
      prepend [⟨.symbol sign, ⟨line, col⟩⟩]
        (scanFrom line (col + sign.spelling.toList.length) rest) := by
  have hfirst : ∃ c cs, sign.spelling.toList = c :: cs ∧ isSpace c = false ∧
      (c = '-' → cs = [] ∧ sign = .minus ∨ cs = ['>']) := by
    cases sign <;> exact ⟨_, _, rfl, by decide, by decide⟩
  obtain ⟨c, cs, hspelling, hspace, hminus⟩ := hfirst
  refine scanFrom_lexeme (l := .symbol sign) hspelling hspace ?_ ?_ line col
  · rintro ⟨rfl, hnext⟩
    rcases hminus rfl with ⟨rfl, hsign⟩ | rfl
    · exact hcomment hsign hnext
    · cases hnext
  · rw [hspelling, List.cons_append] at hread
    exact readLexeme_symbol hspelling hread

theorem scanFrom_valid {l : Lexeme} (h : l.valid = true) {rest : List Char} (hrest : Breaks rest)
    (line : Int) (col : Nat) :
    scanFrom line col (l.spelling.toList ++ rest) =
      prepend [⟨l, ⟨line, col⟩⟩] (scanFrom line (col + l.spelling.toList.length) rest) := by
  cases l with
  | number digits => exact scanFrom_number h hrest line col
  | string body => exact scanFrom_string h rest line col
  | ident name =>
    rw [Lexeme.valid, Bool.and_eq_true, Option.isNone_iff_eq_none] at h
    refine scanFrom_word (l := .ident name) h.1 ?_ hrest line col
    simp [Lexeme.spelling, Lexeme.text, Lexeme.ofWord, h.2]
  | keyword word =>
    refine scanFrom_word ?_ ?_ hrest line col
    · cases word <;> decide
    · cases word <;> rfl
  | symbol sign =>
    refine scanFrom_symbol sign (read?_symbol sign hrest) (fun _ hminus => ?_) line col
    exact absurd (hrest '-' hminus) (by decide)

/-! ## Spelled lines -/

/-- The symbols that can stand close to what they open or close: no longer symbol starts with
them. -/
def Symbol.clings : Symbol → Bool
  | .openParen | .backslash | .closeParen | .comma | .colon => true
  | _ => false

theorem read?_of_clings {sign : Symbol} (h : sign.clings = true) (rest : List Char) :
    Symbol.read? (sign.spelling.toList ++ rest) = some sign := by
  cases rest <;> cases sign <;> first | rfl | cases h

/-- A text on one line that spells lexemes. -/
inductive Spelled : String → List Lexeme → Prop
  | lexeme {l : Lexeme} : l.valid = true → Spelled l.spelling [l]
  | negative {digits : String} : isNumeral digits.toList = true →
      Spelled ("-" ++ digits) [.symbol .minus, .number digits]
  | spaced {text text' : String} {ls ms : List Lexeme} : Spelled text ls → Spelled text' ms →
      Spelled (text ++ " " ++ text') (ls ++ ms)
  | opened {sign : Symbol} {text : String} {ls : List Lexeme} :
      sign = .openParen ∨ sign = .backslash → Spelled text ls →
      Spelled (sign.spelling ++ text) (.symbol sign :: ls)
  | closed {sign : Symbol} {text : String} {ls : List Lexeme} :
      sign = .closeParen ∨ sign = .comma ∨ sign = .colon → Spelled text ls →
      Spelled (text ++ sign.spelling) (ls ++ [.symbol sign])

/-- The tokens of a text that starts in the column `col`: the first stands there, the others right
of it. -/
def Placed (line : Int) (col : Nat) : List Token → Prop
  | [] => False
  | t :: ts => t.pos = ⟨line, col⟩ ∧ ∀ u ∈ ts, col < u.pos.col

theorem Placed.le_col {line : Int} {col : Nat} {ts : List Token} (h : Placed line col ts) :
    ∀ t ∈ ts, col ≤ t.pos.col := by
  cases ts with
  | nil => exact h.elim
  | cons t ts =>
    intro u hu
    rcases List.mem_cons.mp hu with rfl | hu
    · exact Nat.le_of_eq (congrArg Position.col h.1).symm
    · exact Nat.le_of_lt (h.2 u hu)

theorem Placed.append {line : Int} {col col' : Nat} {ts us : List Token} (h : Placed line col ts)
    (h' : Placed line col' us) (hlt : col < col') : Placed line col (ts ++ us) := by
  cases ts with
  | nil => exact h.elim
  | cons t ts =>
    refine ⟨h.1, fun u hu => ?_⟩
    rcases List.mem_append.mp hu with hu | hu
    · exact h.2 u hu
    · exact Nat.lt_of_lt_of_le hlt (h'.le_col u hu)

theorem placed_singleton (l : Lexeme) (line : Int) (col : Nat) :
    Placed line col [⟨l, ⟨line, col⟩⟩] :=
  ⟨rfl, by simp⟩

theorem isBlank_of_visible {c : Char} (h : 0x20 < c.toNat) (h' : c.toNat < 0x7f) :
    Text.isBlank c = false := by
  simp only [Text.isBlank]
  grind

theorem visible_of_isNamePart {c : Char} (h : isNamePart c = true) :
    0x20 < c.toNat ∧ c.toNat < 0x7f := by
  rw [isNamePart, Bool.or_eq_true] at h
  rcases h with h | h
  · simp only [Char.isAlphanum, Char.isAlpha, Char.isUpper, Char.isLower, Char.isDigit,
      Bool.or_eq_true, Bool.and_eq_true, decide_eq_true_eq, UInt32.le_iff_toNat_le] at h
    constructor <;> grind [Char.toNat]
  · rw [beq_iff_eq.mp h]
    exact ⟨by decide, by decide⟩

theorem isBlank_of_isNamePart {c : Char} (h : isNamePart c = true) : Text.isBlank c = false :=
  isBlank_of_visible (visible_of_isNamePart h).1 (visible_of_isNamePart h).2

/-- A valid lexeme starts with a character that is no white space. -/
theorem spelling_visible {l : Lexeme} (h : l.valid = true) :
    ∃ c cs, l.spelling.toList = c :: cs ∧ Text.isBlank c = false := by
  cases l with
  | number digits =>
    obtain ⟨whole, fraction, heq, hne, hwhole, _⟩ := isNumeral_iff.mp h
    obtain ⟨d, ds, rfl⟩ := List.exists_cons_of_ne_nil hne
    exact ⟨d, ds ++ fraction, heq,
      isBlank_of_isNamePart (isNamePart_of_isDigit (hwhole d List.mem_cons_self))⟩
  | string body => exact ⟨'"', body.toList ++ ['"'], by simp [Lexeme.spelling], by decide⟩
  | ident name =>
    rw [Lexeme.valid, Bool.and_eq_true] at h
    cases hname : name.toList with
    | nil =>
      rw [hname] at h
      cases h.1
    | cons c cs =>
      rw [hname, isName, Bool.and_eq_true] at h
      exact ⟨c, cs, hname, isBlank_of_isNamePart (isNamePart_of_isNameStart h.1.1)⟩
  | keyword word => cases word <;> exact ⟨_, _, rfl, by decide⟩
  | symbol sign => cases sign <;> exact ⟨_, _, rfl, by decide⟩

/-- A spelled text starts with a character that is no white space. -/
theorem Spelled.visible {text : String} {ls : List Lexeme} (h : Spelled text ls) :
    ∃ c cs, text.toList = c :: cs ∧ Text.isBlank c = false := by
  induction h with
  | lexeme hl => exact spelling_visible hl
  | @negative digits _ => exact ⟨'-', digits.toList, by simp, by decide⟩
  | @spaced text text' _ _ _ _ ih _ =>
    obtain ⟨c, cs, heq, hc⟩ := ih
    exact ⟨c, cs ++ ' ' :: text'.toList, by simp [heq], hc⟩
  | @opened sign text _ hsign _ _ =>
    rcases hsign with rfl | rfl
    · exact ⟨'(', text.toList, by simp [Symbol.spelling], by decide⟩
    · exact ⟨'\\', text.toList, by simp [Symbol.spelling], by decide⟩
  | @closed sign text _ _ _ ih =>
    obtain ⟨c, cs, heq, hc⟩ := ih
    exact ⟨c, cs ++ sign.spelling.toList, by simp [heq], hc⟩

theorem scanFrom_clinging {sign : Symbol} (h : sign.clings = true) (rest : List Char) (line : Int)
    (col : Nat) :
    scanFrom line col (sign.spelling.toList ++ rest) =
      prepend [⟨.symbol sign, ⟨line, col⟩⟩]
        (scanFrom line (col + sign.spelling.toList.length) rest) := by
  refine scanFrom_symbol sign (read?_of_clings h rest) (fun hminus => ?_) line col
  subst hminus
  cases h

/-- A hyphen before a digit is a lexeme of its own. -/
theorem scanFrom_minus {d : Char} (hd : d.isDigit = true) (rest : List Char) (line : Int)
    (col : Nat) :
    scanFrom line col ('-' :: d :: rest) =
      prepend [⟨.symbol .minus, ⟨line, col⟩⟩] (scanFrom line (col + 1) (d :: rest)) := by
  refine scanFrom_symbol .minus ?_ (fun _ hnext => ?_) line col
  · have hpair : Symbol.ofPair? '-' d = none := by
      unfold Symbol.ofPair?
      split
      all_goals first | rfl | (next h => cases h) | skip
      cases hd
    simp [Symbol.spelling, Symbol.read?, hpair, Symbol.ofChar?]
  · cases hnext
    cases hd

/-- A spelled text before a break is scanned to its lexemes. -/
theorem scanFrom_spelled {text : String} {ls : List Lexeme} (h : Spelled text ls) (line : Int)
    (col : Nat) {rest : List Char} (hrest : Breaks rest) :
    ∃ ts, ts.map Token.lexeme = ls ∧ Placed line col ts ∧
      scanFrom line col (text.toList ++ rest) =
        prepend ts (scanFrom line (col + text.toList.length) rest) := by
  induction h generalizing col rest with
  | @lexeme l hl =>
    exact ⟨[⟨l, ⟨line, col⟩⟩], rfl, placed_singleton l line col, scanFrom_valid hl hrest line col⟩
  | @negative digits hdigits =>
    obtain ⟨c, cs, heq, _⟩ := spelling_visible (l := .number digits) hdigits
    have hspelling : digits.toList = c :: cs := heq
    have hc : c.isDigit = true := isDigit_of_isNumeral (hspelling ▸ hdigits)
    refine ⟨[⟨.symbol .minus, ⟨line, col⟩⟩, ⟨.number digits, ⟨line, col + 1⟩⟩], rfl,
      ⟨rfl, by simp⟩, ?_⟩
    have hminus := scanFrom_minus hc (cs ++ rest) line col
    have hnumber := scanFrom_number hdigits hrest line (col + 1)
    rw [hspelling, List.cons_append] at hnumber
    rw [hnumber, prepend_prepend] at hminus
    have hlength : (("-" ++ digits).toList).length = 1 + (c :: cs).length := by
      rw [String.toList_append, List.length_append, hspelling]
      rfl
    rw [hlength, ← Nat.add_assoc, String.toList_append, hspelling]
    exact hminus
  | @spaced text text' ls ms _ _ ih ih' =>
    have hspace : Breaks (' ' :: (text'.toList ++ rest)) := breaks_cons rfl
    obtain ⟨ts, hts, hplace, hscan⟩ := ih col hspace
    obtain ⟨us, hus, hplace', hscan'⟩ := ih' (col + text.toList.length + 1) hrest
    refine ⟨ts ++ us, by rw [List.map_append, hts, hus], hplace.append hplace' (by omega), ?_⟩
    rw [scanFrom_gap line _ rfl, hscan', prepend_prepend] at hscan
    have hlength : (text ++ " " ++ text').toList.length =
        text.toList.length + 1 + text'.toList.length := by
      simp
      omega
    rw [hlength, ← Nat.add_assoc, ← Nat.add_assoc, ← hscan]
    simp
  | @opened sign text ls hsign _ ih =>
    have hclings : sign.clings = true := by
      rcases hsign with rfl | rfl <;> rfl
    have hwidth : 0 < sign.spelling.toList.length := by
      rcases hsign with rfl | rfl <;> decide
    obtain ⟨ts, hts, hplace, hscan⟩ := ih (col + sign.spelling.toList.length) hrest
    have hfirst := scanFrom_clinging hclings (text.toList ++ rest) line col
    rw [hscan, prepend_prepend] at hfirst
    refine ⟨⟨.symbol sign, ⟨line, col⟩⟩ :: ts, by rw [List.map_cons, hts],
      (placed_singleton _ line col).append hplace (by omega), ?_⟩
    rw [String.toList_append, List.append_assoc, List.length_append, ← Nat.add_assoc]
    exact hfirst
  | @closed sign text ls hsign hspelled ih =>
    have hclings : sign.clings = true := by
      rcases hsign with rfl | rfl | rfl <;> rfl
    have hbreak : Breaks (sign.spelling.toList ++ rest) := by
      rcases hsign with rfl | rfl | rfl <;> exact breaks_cons rfl
    obtain ⟨ts, hts, hplace, hscan⟩ := ih col hbreak
    have hlast := scanFrom_clinging hclings rest line (col + text.toList.length)
    rw [hlast, prepend_prepend] at hscan
    have hwidth : 0 < text.toList.length := by
      obtain ⟨c, cs, heq, _⟩ := hspelled.visible
      rw [heq, List.length_cons]
      omega
    refine ⟨ts ++ [⟨.symbol sign, ⟨line, col + text.toList.length⟩⟩],
      by rw [List.map_append, hts]; rfl, hplace.append (placed_singleton _ line _) (by omega), ?_⟩
    rw [String.toList_append, List.append_assoc, List.length_append, ← Nat.add_assoc]
    exact hscan

end Polyglot
