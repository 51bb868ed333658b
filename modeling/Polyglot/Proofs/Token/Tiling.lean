import Polyglot.Proofs.Token.Stream

/-!
# Tokens tile a text

A scanned text is made up of its tokens, of white space and of comments, and nothing is left over.
`Tiled` says so character by character. It never looks at the scanner, and it counts lines and
columns for every character, also for those of a comment. Each token is the longest lexeme at its
place, among the lexemes of all classes (`Longest`).

Results:
1. `exists_readLexeme`: where a lexeme stands, one at least as long is read.
2. `scanFrom_longest`: the scanner takes the longest lexeme and goes on behind it.
3. `tiled_of_scanFrom`, `scanFrom_of_tiled`: the tokens that are found tile the text, and tokens
   that tile a text are found.
4. `scan_ok_iff_tiled`: both facts for whole texts, with the places of the tokens and their order.
-/

namespace Polyglot

/-! ## The longest lexeme -/

/-- The lexeme `l` stands at the start of `cs`, and no lexeme that stands there is longer. -/
structure Longest (l : Lexeme) (cs : List Char) : Prop where
  valid : l.valid = true
  spelled : l.spelling.toList <+: cs
  longest : ∀ m : Lexeme, m.valid = true → m.spelling.toList <+: cs →
    m.spelling.toList <+: l.spelling.toList

theorem isPrefix_numberChars {part cs : List Char} (hpart : isNumeral part = true)
    (h : part <+: cs) : part <+: numberChars cs := by
  obtain ⟨whole, fraction, rfl, _, hwhole, hfraction⟩ := isNumeral_iff.mp hpart
  obtain ⟨rest, rfl⟩ := h
  have hpoint : Char.isDigit '.' = false := by decide
  rcases hfraction with rfl | ⟨d, ds, rfl, hds⟩
  · have htake : whole <+: (whole ++ [] ++ rest).takeWhile Char.isDigit :=
      (List.isPrefix_takeWhile hwhole).mpr (by simp)
    have hnumber : (whole ++ [] ++ rest).takeWhile Char.isDigit <+:
        numberChars (whole ++ [] ++ rest) := by
      unfold numberChars
      split
      · split
        · exact List.prefix_append _ _
        · exact List.prefix_rfl
      · exact List.prefix_rfl
    rw [List.append_nil] at htake hnumber ⊢
    exact htake.trans hnumber
  · have hd : d.isDigit = true := hds d List.mem_cons_self
    have hmore : (ds ++ rest).takeWhile Char.isDigit = ds ++ rest.takeWhile Char.isDigit :=
      List.takeWhile_append_of_pos fun c hc => hds c (List.mem_cons_of_mem d hc)
    rw [numberChars, List.append_assoc, List.takeWhile_append_of_pos hwhole,
      List.dropWhile_append_of_pos hwhole, List.cons_append, List.cons_append,
      List.takeWhile_cons_of_neg (by simp [hpoint]), List.dropWhile_cons_of_neg (by simp [hpoint])]
    simp only [hd, if_true, List.append_nil, hmore]
    exact ⟨rest.takeWhile Char.isDigit, by simp⟩

/-- A symbol is one character, or two that are read as a pair. -/
theorem Symbol.spelling_cases (sign : Symbol) :
    (∃ c, sign.spelling.toList = [c] ∧ ofChar? c = some sign) ∨
      ∃ c d, sign.spelling.toList = [c, d] ∧ ofPair? c d = some sign := by
  cases sign <;> first | exact .inl ⟨_, rfl, rfl⟩ | exact .inr ⟨_, _, rfl, rfl⟩

/-- Where a symbol stands, one at least as long is read. -/
theorem Symbol.exists_read? {sign : Symbol} {cs : List Char} (h : sign.spelling.toList <+: cs) :
    ∃ found, read? cs = some found ∧ sign.spelling.toList <+: found.spelling.toList := by
  obtain ⟨rest, rfl⟩ := h
  rcases sign.spelling_cases with ⟨c, hspelling, hchar⟩ | ⟨c, d, hspelling, hpair⟩
  · rw [hspelling]
    cases rest with
    | nil => exact ⟨sign, hchar, by rw [hspelling]⟩
    | cons d rest =>
      cases hpair : ofPair? c d with
      | none => exact ⟨sign, by simp [read?, hpair, hchar], by rw [hspelling]⟩
      | some found =>
        refine ⟨found, by simp [read?, hpair], ?_⟩
        rw [spelling_of_ofPair? hpair]
        exact List.prefix_append [c] [d]
  · refine ⟨sign, ?_, List.prefix_rfl⟩
    rw [hspelling]
    simp [read?, hpair]

/-- Where a word stands, one at least as long is read. -/
theorem exists_readLexeme_word {part : List Char} {c : Char} {cs : List Char}
    (hname : isName part = true) (h : part <+: c :: cs) :
    ∃ l, readLexeme c cs = .ok l ∧ part <+: l.spelling.toList := by
  cases part with
  | nil => cases hname
  | cons d ds =>
    rw [isName, Bool.and_eq_true] at hname
    obtain ⟨rfl, hds⟩ := List.cons_prefix_cons.mp h
    refine ⟨_, readLexeme_of_isNameStart hname.1 cs, ?_⟩
    rw [Lexeme.spelling_ofWord, String.toList_ofList, List.cons_prefix_cons]
    exact ⟨rfl, (List.isPrefix_takeWhile (List.all_eq_true.mp hname.2)).mpr hds⟩

/-- Where a lexeme stands, one at least as long is read. -/
theorem exists_readLexeme {m : Lexeme} (hm : m.valid = true) {c : Char} {cs : List Char}
    (h : m.spelling.toList <+: c :: cs) :
    ∃ l, readLexeme c cs = .ok l ∧ m.spelling.toList <+: l.spelling.toList := by
  cases m with
  | number digits =>
    obtain ⟨d, part, hspelling, _⟩ := spelling_visible hm
    have hdigit : c.isDigit = true := by
      rw [hspelling, List.cons_prefix_cons] at h
      have hnumeral : isNumeral digits.toList = true := hm
      rw [show digits.toList = d :: part from hspelling, h.1] at hnumeral
      exact isDigit_of_isNumeral hnumeral
    refine ⟨.number (String.ofList (numberChars (c :: cs))), by rw [readLexeme, if_pos hdigit], ?_⟩
    show digits.toList <+: (String.ofList (numberChars (c :: cs))).toList
    rw [String.toList_ofList]
    exact isPrefix_numberChars hm h
  | string body =>
    -- the closing quote is the first that stands alone, so there is no other literal here
    refine ⟨.string body, ?_, List.prefix_rfl⟩
    have hspelling : (Lexeme.string body).spelling.toList = '"' :: (body.toList ++ ['"']) := by
      simp [Lexeme.spelling]
    rw [hspelling] at h
    obtain ⟨rfl, rest, rfl⟩ := List.cons_prefix_cons.mp h
    rw [List.append_assoc, List.singleton_append]
    exact readLexeme_string hm rest
  | ident name =>
    rw [Lexeme.valid, Bool.and_eq_true] at hm
    exact exists_readLexeme_word hm.1 h
  | keyword word =>
    refine exists_readLexeme_word ?_ h
    cases word <;> decide
  | symbol sign =>
    obtain ⟨d, part, hspelling⟩ : ∃ d part, sign.spelling.toList = d :: part := by
      cases sign <;> exact ⟨_, _, rfl⟩
    have hfirst : d = c := by
      have hprefix : d :: part <+: c :: cs := hspelling ▸ h
      exact (List.cons_prefix_cons.mp hprefix).1
    subst hfirst
    obtain ⟨found, hfound, hlonger⟩ := Symbol.exists_read? h
    exact ⟨.symbol found, readLexeme_symbol hspelling hfound, hlonger⟩

/-- Valid lexemes that are spelled alike are the same. -/
theorem Lexeme.eq_of_spelling {l m : Lexeme} (hl : l.valid = true) (hm : m.valid = true)
    (h : l.spelling = m.spelling) : l = m := by
  have hscan := scanFrom_valid hl breaks_nil 0 1
  rw [h, scanFrom_valid hm breaks_nil 0 1, scanFrom] at hscan
  simp only [prepend, Except.map, List.append_nil, Except.ok.injEq, Scan.mk.injEq, List.cons.injEq,
    Token.mk.injEq, and_true] at hscan
  exact hscan.symm

/-- What is read at a place is the longest lexeme there. -/
theorem readLexeme_eq_ok_iff_longest {c : Char} {cs : List Char} {l : Lexeme} :
    readLexeme c cs = .ok l ↔ Longest l (c :: cs) := by
  constructor
  · intro h
    refine ⟨readLexeme_valid h, readLexeme_isPrefix h, fun m hm hprefix => ?_⟩
    obtain ⟨found, hfound, hlonger⟩ := exists_readLexeme hm hprefix
    rw [h] at hfound
    cases hfound
    exact hlonger
  · intro h
    obtain ⟨found, hfound, hlonger⟩ := exists_readLexeme h.valid h.spelled
    have hvalid := readLexeme_valid hfound
    have hshorter := h.longest found hvalid (readLexeme_isPrefix hfound)
    have hsame : found.spelling.toList = l.spelling.toList :=
      List.IsPrefix.eq_of_length_le hshorter hlonger.length_le
    rw [hfound, Lexeme.eq_of_spelling hvalid h.valid (String.toList_injective hsame)]

/-! ## Places -/

namespace Position

/-- The place behind a character. -/
def next (pos : Position) (c : Char) : Position :=
  if c = '\n' then ⟨pos.line + 1, 1⟩ else ⟨pos.line, pos.col + 1⟩

/-- The place behind a stretch of text that starts at `pos`. -/
def behind (pos : Position) (cs : List Char) : Position :=
  cs.foldl next pos

theorem behind_of_not_mem (pos : Position) {cs : List Char} (h : '\n' ∉ cs) :
    pos.behind cs = ⟨pos.line, pos.col + cs.length⟩ := by
  induction cs generalizing pos with
  | nil => rfl
  | cons c cs ih =>
    rw [List.mem_cons, not_or] at h
    have hnext : pos.next c = ⟨pos.line, pos.col + 1⟩ := if_neg (Ne.symm h.1)
    have hrest := ih (pos.next c) h.2
    rw [hnext] at hrest
    rw [behind, List.foldl_cons, hnext]
    refine hrest.trans ?_
    rw [List.length_cons, Nat.add_assoc, Nat.add_comm 1]

theorem next_of_isGap (pos : Position) {c : Char} (h : isGap c = true) :
    pos.next c = ⟨pos.line, pos.col + 1⟩ := by
  unfold next
  rw [if_neg]
  rintro rfl
  exact absurd h (by decide)

end Position

/-! ## Scanning lexeme by lexeme -/

/-- Two hyphens open a comment. -/
def OpensComment (cs : List Char) : Prop :=
  ∃ body, cs = '-' :: '-' :: body

theorem opensComment_iff {c : Char} {cs : List Char} :
    OpensComment (c :: cs) ↔ c = '-' ∧ cs.head? = some '-' := by
  simp only [OpensComment, List.cons.injEq, exists_and_left, List.head?_eq_some_iff]

/-- A valid lexeme starts with a character that is not passed over. -/
theorem exists_spelling_cons {l : Lexeme} (h : l.valid = true) :
    ∃ c part, l.spelling.toList = c :: part ∧ isSpace c = false := by
  obtain ⟨c, part, hspelling, hblank⟩ := spelling_visible h
  refine ⟨c, part, hspelling, ?_⟩
  cases hspace : isSpace c with
  | false => rfl
  | true =>
    rcases eq_of_isSpace hspace with rfl | rfl | rfl | rfl <;> exact absurd hblank (by decide)

theorem scanFrom_space {c : Char} (h : isSpace c = true) (pos : Position) (cs : List Char) :
    scanFrom pos.line pos.col (c :: cs) = scanFrom (pos.next c).line (pos.next c).col cs := by
  rw [isSpace, Bool.or_eq_true, beq_iff_eq] at h
  rcases h with hgap | rfl
  · rw [pos.next_of_isGap hgap, scanFrom_gap pos.line pos.col hgap]
  · exact scanFrom_newline pos.line pos.col cs

/-- The scanner takes the longest lexeme, unless a comment starts there. -/
theorem scanFrom_longest {l : Lexeme} {rest : List Char}
    (h : Longest l (l.spelling.toList ++ rest))
    (hcomment : ¬ OpensComment (l.spelling.toList ++ rest)) (line : Int) (col : Nat) :
    scanFrom line col (l.spelling.toList ++ rest) =
      (scanFrom line (col + l.spelling.toList.length) rest).map (Scan.cons ⟨l, ⟨line, col⟩⟩) := by
  obtain ⟨c, part, hspelling, hspace⟩ := exists_spelling_cons h.valid
  rw [hspelling, List.cons_append] at h hcomment ⊢
  rw [opensComment_iff] at hcomment
  exact scanFrom_read hspace hcomment (readLexeme_eq_ok_iff_longest.mpr h) hspelling line col

/-- A text that can be scanned goes on with a lexeme, if not with white space or a comment. -/
theorem exists_longest_of_scanFrom {line : Int} {col : Nat} {c : Char} {cs : List Char}
    {found : Scan} (h : scanFrom line col (c :: cs) = .ok found) (hspace : isSpace c = false)
    (hcomment : ¬ OpensComment (c :: cs)) : ∃ l, Longest l (c :: cs) := by
  obtain ⟨hgap, hc⟩ := isSpace_eq_false.mp hspace
  rw [opensComment_iff] at hcomment
  rw [scanFrom, if_neg hc, if_neg (by simp [hgap]), if_neg hcomment] at h
  cases hread : readLexeme c cs with
  | error e =>
    rw [hread] at h
    cases h
  | ok l => exact ⟨l, readLexeme_eq_ok_iff_longest.mp hread⟩

/-! ## Tiles -/

/-- The text from the place `pos` on is white space, comments and the tokens in order. Each token
stands where the text has its spelling. -/
inductive Tiled : Position → List Char → List Token → Prop
  | nil {pos : Position} : Tiled pos [] []
  | space {pos : Position} {c : Char} {cs : List Char} {ts : List Token} : isSpace c = true →
      Tiled (pos.next c) cs ts → Tiled pos (c :: cs) ts
  /-- A comment runs to the end of its line. -/
  | comment {pos : Position} {body cs : List Char} {ts : List Token} : '\n' ∉ body →
      (∀ c ∈ cs.head?, c = '\n') → Tiled (pos.behind ('-' :: '-' :: body)) cs ts →
      Tiled pos ('-' :: '-' :: (body ++ cs)) ts
  | token {pos : Position} {l : Lexeme} {cs : List Char} {ts : List Token} :
      Longest l (l.spelling.toList ++ cs) → ¬ OpensComment (l.spelling.toList ++ cs) →
      Tiled (pos.behind l.spelling.toList) cs ts →
      Tiled pos (l.spelling.toList ++ cs) (⟨l, pos⟩ :: ts)

theorem Tiled.lastComment {pos : Position} {body : List Char} (h : '\n' ∉ body) :
    Tiled pos ('-' :: '-' :: body) [] := by
  rw [← List.append_nil body]
  exact .comment h (fun c hc => absurd hc (Option.not_mem_none c)) .nil

theorem Tiled.commentLine {pos : Position} {body cs : List Char} {ts : List Token}
    (h : '\n' ∉ body) (hrest : Tiled ⟨pos.line + 1, 1⟩ cs ts) :
    Tiled pos ('-' :: '-' :: (body ++ '\n' :: cs)) ts := by
  refine .comment h (fun c hc => (Option.some.inj hc).symm) (.space rfl ?_)
  rw [Position.behind_of_not_mem pos (by simp [h])]
  exact hrest

/-- The tokens that are found tile the text. -/
theorem tiled_of_scanFrom (pos : Position) {cs : List Char} {found : Scan}
    (h : scanFrom pos.line pos.col cs = .ok found) : Tiled pos cs found.tokens := by
  -- the scanner goes on behind a lexeme or a comment, so the induction is on the length
  induction hlength : cs.length using Nat.strong_induction_on generalizing pos cs found with
  | _ n ih =>
  subst hlength
  cases cs with
  | nil =>
    rw [scanFrom] at h
    cases h
    exact .nil
  | cons c cs =>
    by_cases hspace : isSpace c = true
    · refine .space hspace (ih cs.length (Nat.lt_succ_self _) _ ?_ rfl)
      rwa [scanFrom_space hspace] at h
    rw [Bool.not_eq_true] at hspace
    by_cases hcomment : OpensComment (c :: cs)
    · obtain ⟨behind, hbehind⟩ := hcomment
      rw [hbehind] at h ih ⊢
      rcases exists_line behind with hlast | ⟨body, rest, rfl, hbody⟩
      · rw [scanFrom_hyphens, dropWhile_line_last hlast, scanFrom] at h
        cases h
        exact .lastComment hlast
      · rw [scanFrom_comment hbody] at h
        refine .commentLine hbody (ih rest.length ?_ _ h rfl)
        simp only [List.length_cons, List.length_append]
        omega
    · obtain ⟨l, hlongest⟩ := exists_longest_of_scanFrom h hspace hcomment
      obtain ⟨rest, hrest⟩ := hlongest.spelled
      have hshorter : rest.length < (c :: cs).length := by
        obtain ⟨d, part, hspelling, _⟩ := exists_spelling_cons hlongest.valid
        rw [← hrest, hspelling, List.length_append, List.length_cons]
        omega
      rw [← hrest] at h hlongest hcomment ⊢
      rw [scanFrom_longest hlongest hcomment] at h
      cases hmore : scanFrom pos.line (pos.col + l.spelling.toList.length) rest with
      | error d =>
        rw [hmore] at h
        cases h
      | ok more =>
        rw [hmore] at h
        cases h
        refine .token hlongest hcomment (ih rest.length hshorter _ ?_ rfl)
        rwa [Position.behind_of_not_mem pos (not_mem_spelling hlongest.valid)]

/-- Tokens that tile a text are found. -/
theorem scanFrom_of_tiled {pos : Position} {cs : List Char} {ts : List Token}
    (h : Tiled pos cs ts) : ∃ finish, scanFrom pos.line pos.col cs = .ok ⟨ts, finish⟩ := by
  induction h with
  | @nil pos =>
    rw [scanFrom]
    exact ⟨pos, rfl⟩
  | @space pos c cs ts hspace _ ih =>
    rw [scanFrom_space hspace]
    exact ih
  | @comment pos body cs ts hbody hend _ ih =>
    cases cs with
    | nil =>
      obtain ⟨finish, hend⟩ := ih
      rw [scanFrom] at hend
      cases hend
      rw [List.append_nil, scanFrom_hyphens, dropWhile_line_last hbody, scanFrom]
      exact ⟨pos, rfl⟩
    | cons c cs =>
      obtain rfl : c = '\n' := hend c rfl
      rw [Position.behind_of_not_mem pos (by simp [hbody]), scanFrom_newline] at ih
      rw [scanFrom_comment hbody]
      exact ih
  | @token pos l cs ts hlongest hcomment _ ih =>
    obtain ⟨finish, hrest⟩ := ih
    rw [Position.behind_of_not_mem pos (not_mem_spelling hlongest.valid)] at hrest
    rw [scanFrom_longest hlongest hcomment, hrest]
    exact ⟨finish, rfl⟩

/-! ## Tiles at their places -/

/-- The spelling of a token is found at its line and column, in a text that starts at `pos`. -/
def Token.StandsIn (pos : Position) (cs : List Char) (t : Token) : Prop :=
  ∃ before rest, cs = before ++ (t.lexeme.spelling.toList ++ rest) ∧ t.pos = pos.behind before

theorem Token.StandsIn.append {pos : Position} {part cs : List Char} {t : Token}
    (h : t.StandsIn (pos.behind part) cs) : t.StandsIn pos (part ++ cs) := by
  obtain ⟨before, rest, rfl, hpos⟩ := h
  refine ⟨part ++ before, rest, (List.append_assoc _ _ _).symm, ?_⟩
  rw [hpos, Position.behind, Position.behind, Position.behind, List.foldl_append]

theorem Tiled.standsIn {pos : Position} {cs : List Char} {ts : List Token} (h : Tiled pos cs ts) :
    ∀ t ∈ ts, t.StandsIn pos cs := by
  induction h with
  | nil => exact fun t ht => absurd ht List.not_mem_nil
  | @space pos c cs _ _ _ ih =>
    intro t ht
    have hrest : t.StandsIn (pos.behind [c]) cs := ih t ht
    exact hrest.append
  | comment _ _ _ ih => exact fun t ht => (ih t ht).append
  | @token pos l cs _ _ _ _ ih =>
    exact List.forall_mem_cons.mpr ⟨⟨[], cs, rfl, rfl⟩, fun t ht => (ih t ht).append⟩

/-! ## Tiles in order -/

/-- A place at or before another. -/
def Position.AtMost (pos pos' : Position) : Prop :=
  pos.line < pos'.line ∨ pos.line = pos'.line ∧ pos.col ≤ pos'.col

/-- A token that starts before another, and is over where that one starts. -/
def Token.Precedes (t u : Token) : Prop :=
  t.pos.line < u.pos.line ∨
    t.pos.line = u.pos.line ∧ t.pos.col < u.pos.col ∧
      t.pos.col + t.lexeme.spelling.length ≤ u.pos.col

namespace Position

theorem AtMost.trans {p q r : Position} (h : p.AtMost q) (h' : q.AtMost r) : p.AtMost r := by
  unfold AtMost at *
  omega

theorem atMost_next (pos : Position) (c : Char) : pos.AtMost (pos.next c) := by
  unfold AtMost next
  split <;> simp

theorem atMost_behind (pos : Position) (cs : List Char) : pos.AtMost (pos.behind cs) := by
  induction cs generalizing pos with
  | nil => exact .inr ⟨rfl, Nat.le_refl _⟩
  | cons c cs ih => exact (pos.atMost_next c).trans (ih (pos.next c))

end Position

theorem Tiled.atMost {pos : Position} {cs : List Char} {ts : List Token} (h : Tiled pos cs ts) :
    ∀ t ∈ ts, pos.AtMost t.pos := by
  induction h with
  | nil => exact fun t ht => absurd ht List.not_mem_nil
  | @space pos c _ _ _ _ ih => exact fun t ht => (pos.atMost_next c).trans (ih t ht)
  | @comment pos body _ _ _ _ _ ih => exact fun t ht => (pos.atMost_behind _).trans (ih t ht)
  | @token pos l _ _ _ _ _ ih =>
    refine List.forall_mem_cons.mpr ⟨pos.atMost_behind [], fun t ht => ?_⟩
    exact (pos.atMost_behind l.spelling.toList).trans (ih t ht)

/-- Tiles follow each other without overlap. -/
theorem Tiled.precedes {pos : Position} {cs : List Char} {ts : List Token} (h : Tiled pos cs ts) :
    ts.Pairwise Token.Precedes := by
  induction h with
  | nil => exact .nil
  | space _ _ ih => exact ih
  | comment _ _ _ ih => exact ih
  | @token pos l _ _ hlongest _ htiled ih =>
    refine .cons (fun u hu => ?_) ih
    have hbehind := htiled.atMost u hu
    rw [Position.behind_of_not_mem pos (not_mem_spelling hlongest.valid)] at hbehind
    obtain ⟨c, part, hspelling, _⟩ := exists_spelling_cons hlongest.valid
    have hwidth : 0 < l.spelling.toList.length := by
      rw [hspelling]
      exact Nat.succ_pos _
    rw [String.length_toList] at hbehind hwidth
    refine hbehind.imp_right fun hcol => ⟨hcol.1, ?_, hcol.2⟩
    exact Nat.lt_of_lt_of_le (Nat.lt_add_of_pos_right hwidth) hcol.2

/-- A text is scanned to tokens exactly if these and white space and comments make up the text. Each
token stands in the line and column of its spelling and is the longest lexeme there, and they follow
each other without overlap. -/
theorem scan_ok_iff_tiled (text : String) (line : Int) (ts : List Token) :
    (∃ finish, scan text line = .ok ⟨ts, finish⟩) ↔
      Tiled ⟨line, 1⟩ text.toList ts ∧ (∀ t ∈ ts, t.StandsIn ⟨line, 1⟩ text.toList) ∧
        ts.Pairwise Token.Precedes := by
  constructor
  · rintro ⟨finish, hscan⟩
    have htiled := tiled_of_scanFrom ⟨line, 1⟩ hscan
    exact ⟨htiled, htiled.standsIn, htiled.precedes⟩
  · rintro ⟨htiled, _⟩
    exact scanFrom_of_tiled htiled

end Polyglot
