import Polyglot.Proofs.Basic
import Polyglot.Token.Scan

/-!
# Lexemes

What is read at a place of a text is a `valid` lexeme: its text has the form of its class. It is
spelled where it is read, and it ends with its line at the latest. White space behind it is not
looked at, and what stands behind a line feed is not seen even by a string literal that does not
end.

Results:
1. `readLexeme_valid`, `readLexeme_spelling`: what is read is valid, and spelled at its place.
2. `readLexeme_append`: a lexeme that is no string literal is read the same before white space.
3. `readLexeme_newline`: before a line feed every lexeme is read, or refused, as before the end of
   the text.
-/

namespace Polyglot

/-! ## Valid lexemes -/

def isName : List Char → Bool
  | [] => false
  | c :: cs => isNameStart c && cs.all isNamePart

/-- Digits, and possibly a point and more digits. -/
def isNumeral (cs : List Char) : Bool :=
  !(cs.takeWhile Char.isDigit).isEmpty &&
    match cs.dropWhile Char.isDigit with
    | [] => true
    | '.' :: d :: ds => (d :: ds).all Char.isDigit
    | _ => false

/-- Text that can stand between quotes on one line: every backslash starts an escape, and the
closing quote is the first that stands alone. -/
def isStringBody : List Char → Bool
  | [] => true
  | ['\\'] => false
  | '\\' :: c :: cs => isEscape c && isStringBody cs
  | c :: cs => c != '"' && c != '\n' && isStringBody cs

def Lexeme.valid : Lexeme → Bool
  | .number digits => isNumeral digits.toList
  | .string body => isStringBody body.toList
  | .ident name => isName name.toList && (Keyword.ofName? name).isNone
  | .keyword _ | .symbol _ => true

/-- A numeral has one of two forms. -/
theorem isNumeral_iff {cs : List Char} :
    isNumeral cs = true ↔ ∃ whole fraction, cs = whole ++ fraction ∧ whole ≠ [] ∧
      (∀ c ∈ whole, c.isDigit = true) ∧
      (fraction = [] ∨ ∃ d ds, fraction = '.' :: d :: ds ∧ ∀ c ∈ d :: ds, c.isDigit = true) := by
  constructor
  · intro h
    simp only [isNumeral, Bool.and_eq_true, Bool.not_eq_true', List.isEmpty_eq_false_iff] at h
    refine ⟨_, _, List.takeWhile_append_dropWhile.symm, h.1,
      fun c hc => List.all_eq_true.mp List.all_takeWhile c hc, ?_⟩
    have htail := h.2
    split at htail
    · next hnil => exact .inl hnil
    · next d ds hpoint => exact .inr ⟨d, ds, hpoint, List.all_eq_true.mp htail⟩
    · cases htail
  · rintro ⟨whole, fraction, rfl, hne, hwhole, hfraction⟩
    have hstop : fraction.takeWhile Char.isDigit = [] ∧
        fraction.dropWhile Char.isDigit = fraction := by
      rcases hfraction with rfl | ⟨d, ds, rfl, _⟩ <;> exact ⟨rfl, rfl⟩
    rw [isNumeral, List.takeWhile_append_of_pos hwhole, List.dropWhile_append_of_pos hwhole,
      hstop.1, hstop.2, List.append_nil, Bool.and_eq_true]
    refine ⟨by simpa using hne, ?_⟩
    rcases hfraction with rfl | ⟨d, ds, rfl, hds⟩
    · rfl
    · exact List.all_eq_true.mpr hds

theorem isDigit_of_isNumeral {c : Char} {cs : List Char} (h : isNumeral (c :: cs) = true) :
    c.isDigit = true := by
  obtain ⟨whole, fraction, heq, hne, hwhole, _⟩ := isNumeral_iff.mp h
  obtain ⟨d, ds, rfl⟩ := List.exists_cons_of_ne_nil hne
  rw [(List.cons.inj heq).1]
  exact hwhole d List.mem_cons_self

theorem isDigit_of_isNameStart {c : Char} (h : isNameStart c = true) : c.isDigit = false := by
  rw [isNameStart, Bool.or_eq_true] at h
  rcases h with h | h
  · grind [Char.isAlpha, Char.isUpper, Char.isLower, Char.isDigit]
  · rw [beq_iff_eq.mp h]
    decide

theorem isNamePart_of_isNameStart {c : Char} (h : isNameStart c = true) : isNamePart c = true := by
  rw [isNameStart, Bool.or_eq_true] at h
  rw [isNamePart, Char.isAlphanum, Bool.or_eq_true, Bool.or_eq_true]
  exact h.imp .inl id

theorem isNamePart_of_isDigit {c : Char} (h : c.isDigit = true) : isNamePart c = true := by
  simp [isNamePart, Char.isAlphanum, h]

/-! ## What is read is valid -/

theorem isNumeral_numberChars {c : Char} (hc : c.isDigit = true) (cs : List Char) :
    isNumeral (numberChars (c :: cs)) = true := by
  have hdigits : ∀ d ∈ (c :: cs).takeWhile Char.isDigit, d.isDigit = true :=
    List.all_eq_true.mp List.all_takeWhile
  have hne : (c :: cs).takeWhile Char.isDigit ≠ [] := by
    rw [List.takeWhile_cons_of_pos hc]
    exact List.cons_ne_nil _ _
  rw [isNumeral_iff, numberChars]
  split
  · next d rest _ =>
    split
    · next hd =>
      refine ⟨_, '.' :: d :: rest.takeWhile Char.isDigit, rfl, hne, hdigits,
        .inr ⟨d, rest.takeWhile Char.isDigit, rfl, fun e he => ?_⟩⟩
      rcases List.mem_cons.mp he with rfl | he
      · exact hd
      · exact List.all_eq_true.mp List.all_takeWhile e he
    · exact ⟨_, [], (List.append_nil _).symm, hne, hdigits, .inl rfl⟩
  · exact ⟨_, [], (List.append_nil _).symm, hne, hdigits, .inl rfl⟩

/-- A character that ends no literal and starts no escape belongs to the body. -/
theorem stringChars_cons {c : Char} (hquote : c ≠ '"') (hline : c ≠ '\n') (hback : c ≠ '\\')
    (offset : Nat) (cs : List Char) :
    stringChars offset (c :: cs) = (do
      let body ← stringChars (offset + 1) cs
      return c :: body) := by
  rw [stringChars]
  · exact hquote
  · exact hline
  · exact fun hc _ => hback hc
  · exact fun _ _ hc _ => hback hc

theorem ne_backslash {c : Char} {cs : List Char} (hlast : c = '\\' → cs = [] → False)
    (hescape : ∀ d ds, c = '\\' → cs = d :: ds → False) : c ≠ '\\' := by
  intro hc
  cases cs with
  | nil => exact hlast hc rfl
  | cons d ds => exact hescape d ds hc rfl

theorem isStringBody_of_stringChars {offset : Nat} {cs body : List Char}
    (h : stringChars offset cs = .ok body) : isStringBody body = true := by
  fun_induction stringChars offset cs generalizing body with
  | case1 => cases h
  | case2 =>
    cases h
    rfl
  | case3 => cases h
  | case4 => cases h
  | case5 offset c cs hescape ih =>
    obtain ⟨rest, hrest, hbody⟩ := exists_of_bind_eq_ok h
    cases hbody
    rw [isStringBody, hescape, Bool.true_and]
    exact ih hrest
  | case6 => cases h
  | case7 offset c cs hquote hline hlast hescape ih =>
    obtain ⟨rest, hrest, hbody⟩ := exists_of_bind_eq_ok h
    cases hbody
    have hback := ne_backslash hlast hescape
    rw [isStringBody, ih hrest, Bool.and_true, Bool.and_eq_true, bne_iff_ne, bne_iff_ne]
    · exact ⟨hquote, hline⟩
    · exact fun hc _ => hback hc
    · exact fun _ _ hc _ => hback hc

theorem readLexeme_valid {c : Char} {cs : List Char} {l : Lexeme} (h : readLexeme c cs = .ok l) :
    l.valid = true := by
  unfold readLexeme at h
  split at h
  · next hc =>
    cases h
    simp [Lexeme.valid, isNumeral_numberChars hc]
  · split at h
    · obtain ⟨body, hbody, hl⟩ := exists_of_bind_eq_ok h
      cases hl
      simp [Lexeme.valid, isStringBody_of_stringChars hbody]
    · split at h
      · next hc =>
        cases h
        rw [Lexeme.ofWord]
        split
        · rfl
        · next hname =>
          have hparts : (cs.takeWhile isNamePart).all isNamePart = true := List.all_takeWhile
          simp only [Lexeme.valid, hname, isName, hc, hparts, String.toList_ofList,
            Option.isNone_none, Bool.and_self]
      · split at h
        · cases h
          rfl
        · cases h

/-! ## Lexemes are stretches of a line -/

theorem not_mem_of_isNamePart {cs : List Char} (h : ∀ c ∈ cs, isNamePart c = true) :
    '\n' ∉ cs :=
  fun hmem => absurd (h '\n' hmem) (by decide)

theorem not_mem_of_isStringBody {cs : List Char} (h : isStringBody cs = true) : '\n' ∉ cs := by
  fun_induction isStringBody cs with
  | case1 => exact List.not_mem_nil
  | case2 => cases h
  | case3 c cs ih =>
    rw [Bool.and_eq_true] at h
    have hc : c ≠ '\n' := by
      rintro rfl
      exact absurd h.1 (by decide)
    simp [hc.symm, ih h.2]
  | case4 c cs _ _ ih =>
    simp only [Bool.and_eq_true, bne_iff_ne, ne_eq] at h
    rw [List.mem_cons, not_or]
    exact ⟨Ne.symm h.1.2, ih h.2⟩

theorem not_mem_spelling {l : Lexeme} (h : l.valid = true) : '\n' ∉ l.spelling.toList := by
  cases l with
  | number digits =>
    obtain ⟨whole, fraction, heq, _, hwhole, hfraction⟩ := isNumeral_iff.mp h
    have hdigits : ∀ {cs : List Char}, (∀ c ∈ cs, c.isDigit = true) → '\n' ∉ cs :=
      fun hcs => not_mem_of_isNamePart fun c hc => isNamePart_of_isDigit (hcs c hc)
    simp only [Lexeme.spelling, Lexeme.text, heq, List.mem_append, not_or]
    refine ⟨hdigits hwhole, ?_⟩
    rcases hfraction with rfl | ⟨d, ds, rfl, hds⟩
    · exact List.not_mem_nil
    · rw [List.mem_cons, not_or]
      exact ⟨by decide, hdigits hds⟩
  | string body => simp [Lexeme.spelling, not_mem_of_isStringBody h]
  | ident name =>
    rw [Lexeme.valid, Bool.and_eq_true] at h
    cases hname : name.toList with
    | nil => simp [Lexeme.spelling, Lexeme.text, hname]
    | cons c cs =>
      rw [hname, isName, Bool.and_eq_true] at h
      simp only [Lexeme.spelling, Lexeme.text, hname]
      refine not_mem_of_isNamePart fun d hd => ?_
      rcases List.mem_cons.mp hd with rfl | hd
      · exact isNamePart_of_isNameStart h.1.1
      · exact List.all_eq_true.mp h.1.2 d hd
  | keyword word => cases word <;> decide
  | symbol sign => cases sign <;> decide

theorem numberChars_isPrefix (cs : List Char) : numberChars cs <+: cs := by
  have hcut : cs.takeWhile Char.isDigit ++ cs.dropWhile Char.isDigit = cs :=
    List.takeWhile_append_dropWhile
  have hwhole : cs.takeWhile Char.isDigit <+: cs := ⟨_, hcut⟩
  unfold numberChars
  split
  · next d rest hdrop =>
    split
    · refine ⟨rest.dropWhile Char.isDigit, ?_⟩
      conv_rhs => rw [← hcut, hdrop]
      simp [List.takeWhile_append_dropWhile]
    · exact hwhole
  · exact hwhole

theorem stringChars_isPrefix {offset : Nat} {cs body : List Char}
    (h : stringChars offset cs = .ok body) : body ++ ['"'] <+: cs := by
  fun_induction stringChars offset cs generalizing body with
  | case1 => cases h
  | case2 offset rest =>
    cases h
    exact ⟨rest, rfl⟩
  | case3 => cases h
  | case4 => cases h
  | case5 offset c cs hescape ih =>
    obtain ⟨rest, hrest, hbody⟩ := exists_of_bind_eq_ok h
    cases hbody
    exact (List.prefix_append_right_inj ['\\', c]).mpr (ih hrest)
  | case6 => cases h
  | case7 offset c cs _ _ _ _ ih =>
    obtain ⟨rest, hrest, hbody⟩ := exists_of_bind_eq_ok h
    cases hbody
    exact (List.prefix_append_right_inj [c]).mpr (ih hrest)

theorem Symbol.spelling_of_ofChar? {c : Char} {sign : Symbol} (h : ofChar? c = some sign) :
    sign.spelling.toList = [c] := by
  unfold ofChar? at h
  split at h <;> cases h <;> rfl

theorem Symbol.spelling_of_ofPair? {c d : Char} {sign : Symbol} (h : ofPair? c d = some sign) :
    sign.spelling.toList = [c, d] := by
  unfold ofPair? at h
  split at h <;> cases h <;> rfl

theorem Symbol.isPrefix_of_read? {cs : List Char} {sign : Symbol} (h : read? cs = some sign) :
    sign.spelling.toList <+: cs := by
  unfold read? at h
  split at h
  · cases h
  · rw [spelling_of_ofChar? h]
  · next c d rest =>
    rcases Option.or_eq_some_iff.mp h with hpair | ⟨_, hsingle⟩
    · rw [spelling_of_ofPair? hpair]
      exact List.prefix_append [c, d] rest
    · rw [spelling_of_ofChar? hsingle]
      exact List.prefix_append [c] (d :: rest)

theorem Lexeme.spelling_ofWord (word : String) : (ofWord word).spelling = word := by
  unfold ofWord
  split
  · next reserved hword =>
    unfold Keyword.ofName? at hword
    split at hword <;> cases hword <;> rfl
  · rfl

/-- A lexeme is spelled at the place where it is read. -/
theorem readLexeme_isPrefix {c : Char} {cs : List Char} {l : Lexeme} (h : readLexeme c cs = .ok l) :
    l.spelling.toList <+: c :: cs := by
  unfold readLexeme at h
  split at h
  · cases h
    show (String.ofList (numberChars (c :: cs))).toList <+: c :: cs
    rw [String.toList_ofList]
    exact numberChars_isPrefix (c :: cs)
  · split at h
    · next hquote =>
      obtain ⟨body, hbody, hl⟩ := exists_of_bind_eq_ok h
      cases hl
      subst hquote
      have hspelling : (Lexeme.string (String.ofList body)).spelling.toList =
          ['"'] ++ (body ++ ['"']) := by
        simp [Lexeme.spelling]
      rw [hspelling]
      exact (List.prefix_append_right_inj ['"']).mpr (stringChars_isPrefix hbody)
    · split at h
      · cases h
        rw [Lexeme.spelling_ofWord, String.toList_ofList]
        exact (List.prefix_append_right_inj [c]).mpr (List.takeWhile_prefix isNamePart)
      · split at h
        · next sign hsign =>
          cases h
          exact Symbol.isPrefix_of_read? hsign
        · cases h

theorem readLexeme_ne_nil {c : Char} {cs : List Char} {l : Lexeme} (h : readLexeme c cs = .ok l) :
    l.spelling.toList ≠ [] := by
  unfold readLexeme at h
  split at h
  · next hdigit =>
    cases h
    obtain ⟨whole, fraction, heq, hne, _⟩ := isNumeral_iff.mp (isNumeral_numberChars hdigit cs)
    show (String.ofList (numberChars (c :: cs))).toList ≠ []
    rw [String.toList_ofList, heq]
    exact List.append_ne_nil_of_left_ne_nil hne fraction
  · split at h
    · obtain ⟨body, _, hl⟩ := exists_of_bind_eq_ok h
      cases hl
      simp [Lexeme.spelling]
    · split at h
      · cases h
        rw [Lexeme.spelling_ofWord, String.toList_ofList]
        exact List.cons_ne_nil _ _
      · split at h
        · next sign _ =>
          cases h
          cases sign <;> exact List.cons_ne_nil _ _
        · cases h

/-- A lexeme starts with the character that it was read at, and the line goes on behind it. -/
theorem readLexeme_spelling {c : Char} {cs : List Char} {l : Lexeme} (h : readLexeme c cs = .ok l) :
    ∃ part rest, l.spelling.toList = c :: part ∧ l.spelling.length = part.length + 1 ∧
      cs = part ++ rest := by
  obtain ⟨d, part, hspelling⟩ := List.exists_cons_of_ne_nil (readLexeme_ne_nil h)
  obtain ⟨rest, hrest⟩ := readLexeme_isPrefix h
  rw [hspelling, List.cons_append] at hrest
  obtain ⟨rfl, hcs⟩ := List.cons.inj hrest
  refine ⟨part, rest, hspelling, ?_, hcs.symm⟩
  rw [← String.length_toList, hspelling, List.length_cons]

/-! ## White space behind a lexeme -/

/-- What the scanner passes over between lexemes, the ends of lines included. -/
def isSpace (c : Char) : Bool :=
  isGap c || c == '\n'

/-- What can stand behind any part of a text: nothing, or white space. -/
def SpaceAhead (rest : List Char) : Prop :=
  ∀ c ∈ rest.head?, isSpace c = true

theorem spaceAhead_cons {c : Char} {rest : List Char} (h : isSpace c = true) :
    SpaceAhead (c :: rest) := by
  intro d hd
  cases hd
  exact h

theorem eq_of_isSpace {c : Char} (h : isSpace c = true) :
    c = ' ' ∨ c = '\t' ∨ c = '\r' ∨ c = '\n' := by
  simpa [isSpace, isGap, or_assoc] using h

theorem isSpace_eq_false {c : Char} : isSpace c = false ↔ isGap c = false ∧ c ≠ '\n' := by
  rw [isSpace, Bool.or_eq_false_iff, beq_eq_false_iff_ne]

theorem isNamePart_of_isSpace {c : Char} (h : isSpace c = true) : isNamePart c = false := by
  rcases eq_of_isSpace h with rfl | rfl | rfl | rfl <;> decide

theorem isSpace_of_isNamePart {c : Char} (h : isNamePart c = true) : isSpace c = false := by
  cases hspace : isSpace c with
  | false => rfl
  | true =>
    rw [isNamePart_of_isSpace hspace] at h
    cases h

theorem isDigit_of_isSpace {c : Char} (h : isSpace c = true) : c.isDigit = false := by
  rcases eq_of_isSpace h with rfl | rfl | rfl | rfl <;> decide

theorem numberChars_append_of_spaceAhead {rest : List Char} (hrest : SpaceAhead rest)
    (cs : List Char) : numberChars (cs ++ rest) = numberChars cs := by
  have hdigit : ∀ c ∈ rest.head?, c.isDigit = false := fun c hc => isDigit_of_isSpace (hrest c hc)
  obtain ⟨htake, hdrop⟩ := List.takeWhile_append_of_head hdigit cs
  rw [numberChars, numberChars, htake, hdrop]
  rcases cs.dropWhile Char.isDigit with _ | ⟨c, _ | ⟨d, ds⟩⟩
  · -- a number that ends here is not followed by a point
    rw [List.nil_append]
    split
    · exact absurd (hrest '.' rfl) (by decide)
    · rfl
  · by_cases hc : c = '.'
    · subst hc
      cases rest with
      | nil => rfl
      | cons d rest => simp [hdigit d rfl]
    · simp [hc]
  · have hmore := (List.takeWhile_append_of_head hdigit ds).1
    by_cases hc : c = '.'
    · subst hc
      simp only [List.cons_append, hmore]
    · simp [hc]

theorem read?_append_of_spaceAhead {rest : List Char} (hrest : SpaceAhead rest) (c : Char)
    (cs : List Char) : Symbol.read? (c :: (cs ++ rest)) = Symbol.read? (c :: cs) := by
  cases cs with
  | cons d ds => rfl
  | nil =>
    cases rest with
    | nil => rfl
    | cons d rest =>
      have hpair : Symbol.ofPair? c d = none := by
        unfold Symbol.ofPair?
        rcases eq_of_isSpace (hrest d rfl) with rfl | rfl | rfl | rfl <;> split <;> simp_all
      show (Symbol.ofPair? c d).or (Symbol.ofChar? c) = Symbol.ofChar? c
      rw [hpair, Option.none_or]

/-- White space behind a lexeme is not looked at, unless a string literal runs over it. -/
theorem readLexeme_append {c : Char} (hquote : c ≠ '"') {rest : List Char} (hrest : SpaceAhead rest)
    (cs : List Char) : readLexeme c (cs ++ rest) = readLexeme c cs := by
  have hname : ∀ d ∈ rest.head?, isNamePart d = false :=
    fun d hd => isNamePart_of_isSpace (hrest d hd)
  rw [readLexeme, readLexeme, ← List.cons_append, numberChars_append_of_spaceAhead hrest,
    if_neg hquote, if_neg hquote, (List.takeWhile_append_of_head hname cs).1, List.cons_append,
    read?_append_of_spaceAhead hrest]

/-! ## A line feed behind a lexeme -/

/-- A string literal that does not end before a line feed is refused as it is at the end of a text,
also behind a backslash. -/
theorem stringChars_newline (offset : Nat) (cs rest : List Char) :
    stringChars offset (cs ++ '\n' :: rest) = stringChars offset cs := by
  fun_induction stringChars offset cs with
  | case1 offset => rfl
  | case2 offset cs => rfl
  | case3 offset cs => rfl
  | case4 offset => rfl
  | case5 offset c cs hescape ih =>
    simp only [List.cons_append, stringChars, hescape, if_true, ih]
  | case6 offset c cs hescape =>
    simp only [List.cons_append, stringChars, hescape, Bool.false_eq_true, if_false]
  | case7 offset c cs hquote hline hlast hescape ih =>
    rw [List.cons_append, stringChars_cons hquote hline (ne_backslash hlast hescape), ih]

/-- What stands behind a line feed has no part in the lexeme that is read before it. -/
theorem readLexeme_newline (c : Char) (cs rest : List Char) :
    readLexeme c (cs ++ '\n' :: rest) = readLexeme c cs := by
  by_cases hquote : c = '"'
  · subst hquote
    rw [readLexeme, readLexeme, if_neg (by decide), if_pos rfl, if_neg (by decide), if_pos rfl,
      stringChars_newline]
  · exact readLexeme_append hquote (spaceAhead_cons rfl) cs

end Polyglot
