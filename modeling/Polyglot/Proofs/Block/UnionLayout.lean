import Polyglot.Proofs.Block.Agreement
import Polyglot.Proofs.Block.Whole
import Polyglot.Proofs.Decl.Relaid
import Polyglot.Proofs.Token.Stream

/-!
# Layouts of a union

A union can be written with any white space between its lexemes, on as many lines as one likes, if
the further lines start with a blank or a bar. Such a text is one block, and its tokens are those of
the union, of which only bars are brought to the start of a line (`inline_of_scan`).

Still the layout decides whether the union is read. The heading line is recognised by its first
characters, and there only a blank or the end of the line counts as white space behind the word
`type`. With a tab or a carriage return instead, the block is taken for something else, and reading
it fails at the first token (`read_laid_union`).
-/

namespace Polyglot

open Grammar

/-! ## The start of a line -/

/-- A token that can start a type is spelled with a letter, an underscore or a parenthesis first. -/
theorem head_of_opensType {t : Token} (hvalid : t.lexeme.valid = true) (h : opensType t = true) :
    ∃ c ∈ t.lexeme.spelling.toList.head?, isNameStart c = true ∨ c = '(' := by
  obtain ⟨l, pos⟩ := t
  cases l with
  | number | string | keyword => cases h
  | symbol sign =>
    obtain rfl : sign = .openParen := by simpa [opensType, Parser.isIdent] using h
    refine ⟨'(', ?_, .inr rfl⟩
    show '(' ∈ "(".toList.head?
    decide
  | ident name =>
    have hname : isName name.toList = true := by
      rw [Lexeme.valid, Bool.and_eq_true] at hvalid
      exact hvalid.1
    show ∃ c ∈ name.toList.head?, _
    cases hcs : name.toList with
    | nil =>
      rw [hcs] at hname
      cases hname
    | cons c cs =>
      rw [hcs, isName, Bool.and_eq_true] at hname
      exact ⟨c, rfl, .inl hname.1⟩

/-- No type starts at the start of a line that hangs. -/
theorem inline_of_scansLines {line : Int} {lines : List String} {ts : List Token}
    (hscan : ScansLines line lines ts) (hvalid : ∀ t ∈ ts, t.lexeme.valid = true)
    (hlines : ∀ content ∈ lines, Heading.hangs content = true) :
    ∀ t ∈ ts, opensType t = true → t.pos.col ≠ 1 := by
  intro t ht hopens hcol
  obtain ⟨content, hcontent, c, hhead, _, hspelled⟩ := hscan.spelled ht hcol
  obtain ⟨d, hd, hkind⟩ := head_of_opensType (hvalid t ht) hopens
  obtain ⟨e, he, hstart⟩ := Heading.head_of_hangs (hlines content hcontent)
  obtain rfl : c = d := Option.mem_unique hspelled hd
  obtain rfl : c = e := Option.mem_unique hhead he
  rcases hstart with rfl | rfl | rfl <;> exact absurd hkind (by decide)

/-- Nor does one start at the start of a text that a keyword opens. -/
theorem inline_of_scan {text : String} {line : Int} {found : Scan} {word : Keyword}
    {ls : List Lexeme} (hscan : scan text line = .ok found)
    (hlexemes : found.tokens.map Token.lexeme = .keyword word :: ls)
    (hlines : ∀ content ∈ (Text.lines text).tail, Heading.hangs content = true) :
    ∀ t ∈ found.tokens, opensType t = true → t.pos.col ≠ 1 := by
  have hvalid := scan_valid hscan
  obtain ⟨first, rest, hcut⟩ := List.exists_cons_of_ne_nil (Text.lines_ne_nil text)
  rw [hcut, List.tail_cons] at hlines
  have hscans := scansLines_of_scan hscan
  rw [hcut] at hscans
  obtain ⟨ts, more, last, hts, hmore, htokens⟩ := hscans.exists_cons
  rw [htokens, List.forall_mem_append] at hvalid ⊢
  refine ⟨fun t ht hopens => ?_, inline_of_scansLines hmore hvalid.2 hlines⟩
  cases ts with
  | nil => cases ht
  | cons u ts =>
    rw [htokens, List.cons_append, List.map_cons] at hlexemes
    rcases List.mem_cons.mp ht with rfl | ht
    · rw [opensType, (List.cons.inj hlexemes).1] at hopens
      cases hopens
    · have hfirst := (hts.onLine.1 u List.mem_cons_self).2.1
      have hright := List.rel_of_pairwise_cons hts.sorted ht
      exact Nat.ne_of_gt (Nat.lt_of_le_of_lt hfirst hright)

/-! ## The heading -/

namespace Text

/-- The first line of a text. -/
theorem exists_lines_eq (cs : List Char) :
    ∃ rest, lines (String.ofList cs) = String.ofList (cs.takeWhile (· != '\n')) :: rest := by
  rcases exists_line cs with h | ⟨first, rest, rfl, h⟩
  · have htake := (takeWhile_line h []).1
    rw [List.append_nil, List.takeWhile_nil, List.append_nil] at htake
    exact ⟨[], by rw [lines_of_not_mem h, htake]⟩
  · refine ⟨lines (String.ofList rest), ?_⟩
    rw [lines_append_newline h, (takeWhile_line h _).1, List.takeWhile_cons_of_neg (by decide),
      List.append_nil]

end Text

namespace Block

open Heading

theorem form_eq_union_iff {first : String} {rest : List String} :
    form (first :: rest) = some .union ↔
      first = "type" ∨ "type ".toList.isPrefixOf first.toList = true := by
  have hequation (line : String) : equationForm line ≠ some .union := by
    intro h
    obtain ⟨words, _, hform⟩ := Option.map_eq_some_iff.mp h
    split at hform <;> cases hform
  rw [form]
  split
  · next h => exact iff_of_true rfl h
  · next h =>
    refine iff_of_false (fun hform => ?_) h
    split at hform
    · obtain ⟨second, _, hsecond⟩ := Option.bind_eq_some_iff.mp hform
      exact hequation second hsecond
    · exact hequation first hform

/-- The word `type` is a heading if a blank or the end of its line comes behind it. -/
theorem form_type {text : String} {c : Char} {cs : List Char} (hspace : isSpace c = true)
    (htext : text.toList = 't' :: 'y' :: 'p' :: 'e' :: c :: cs) :
    ∃ first rest, Text.lines text = first :: rest ∧ separates first = false ∧
      (form (first :: rest) = some .union ↔ c = ' ' ∨ c = '\n') := by
  obtain ⟨rest, hlines⟩ := Text.exists_lines_eq text.toList
  rw [String.ofList_toList, htext] at hlines
  refine ⟨_, rest, hlines, not_separates String.toList_ofList (by decide), ?_⟩
  rw [form_eq_union_iff, String.toList_ofList, ← String.toList_inj, String.toList_ofList]
  simp only [isSpace, isGap, Bool.or_eq_true, beq_iff_eq] at hspace
  rcases hspace with ((rfl | rfl) | rfl) | rfl <;> simp [List.takeWhile, List.isPrefixOf]

/-! ## Reading -/

/-- Lines that are no heading of a union but start with a keyword have no form, or they are read as
an equation, which does not start with one. -/
theorem read_keyword {text first : String} {rest : List String} {found : Scan} {t : Token}
    {ts : List Token} {word : Keyword} (hlines : Text.lines text = first :: rest)
    (hfirst : separates first = false) (hform : form (first :: rest) ≠ some .union)
    (hscan : scan text 1 = .ok found) (htokens : found.tokens = t :: ts)
    (hword : t.lexeme = .keyword word) (hpos : t.pos = ⟨1, 1⟩) :
    ∃ d, (whole 0 text).read = .error d ∧ d.pos = ⟨1, 1⟩ := by
  cases hkind : form (first :: rest) with
  | none =>
    have hnone : formOf text 1 = .error ⟨.block, .unknownBlock, ⟨1, 1⟩⟩ := by
      rw [separates, Bool.or_eq_false_iff] at hfirst
      rw [formOf, hlines, classify, hfirst.1, if_neg Bool.false_ne_true, hkind]
    refine ⟨⟨.block, .unknownBlock, ⟨1, 1⟩⟩, ?_, rfl⟩
    rw [read_whole_zero, hnone]
    rfl
  | some kind =>
    have hsome : formOf text 1 = .ok kind := by
      rw [formOf, hlines, classify_eq hfirst hkind]
    have hgrammar : grammar kind = equation := by
      cases kind with
      | union => exact absurd hkind hform
      | function | const => rfl
    have hunsigned : signatureName? (Cursor.ofScan found) = none := by
      rw [signatureName?, Cursor.ofScan, htokens]
      obtain ⟨l, pos⟩ := t
      subst hword
      rfl
    refine ⟨⟨.signature, .expectedIdent (some (.keyword word)), ⟨1, 1⟩⟩, ?_, rfl⟩
    rw [read_whole_zero, hsome, hscan]
    show (grammar kind).outcome (Cursor.ofScan found) = _
    rw [hgrammar, Parser.outcome, equation_unsigned hunsigned, Cursor.ofScan, htokens]
    obtain ⟨l, pos⟩ := t
    subst hword hpos
    rfl

/-- The first two lexemes of a union, with what stands between them. -/
theorem exists_heading {ts : List Token} {declared : Union} (h : DerivesUnion ts declared)
    {text : String} (hlaid : Laid IsSpaces (ts.map Token.lexeme) text.toList) :
    ∃ ls c cs, ts.map Token.lexeme = .keyword .typeWord :: ls ∧ isSpace c = true ∧
      text.toList = 't' :: 'y' :: 'p' :: 'e' :: c :: cs := by
  cases h with
  | mk hword _ _ _ _ _ _ =>
    rw [List.map_cons, List.map_cons, hword] at hlaid ⊢
    generalize htext : text.toList = cs at hlaid
    cases hlaid with
    | cons l hrun _ =>
      obtain ⟨c, run, rfl⟩ := List.exists_cons_of_ne_nil hrun.1
      exact ⟨_, c, _, rfl, hrun.2 c List.mem_cons_self, rfl⟩

/-- A union laid out in any way is one block. It is read as the union if a blank or the end of the
line comes behind its first word; otherwise it is not read at all. -/
theorem read_laid_union {found : Scan} {declared : Union} {text : String}
    (hvalid : ∀ t ∈ found.tokens, t.lexeme.valid = true)
    (hread : Grammar.union.outcome (Cursor.ofScan found) = .ok declared)
    (hlaid : Laid IsSpaces (found.tokens.map Token.lexeme) text.toList)
    (hlines : ∀ line ∈ (Text.lines text).tail, hangs line = true) :
    ofText text = [whole 0 text] ∧
      if "type ".toList <+: text.toList ∨ "type\n".toList <+: text.toList then
        (whole 0 text).read = .ok (.union declared)
      else
        ∃ d, (whole 0 text).read = .error d ∧ d.pos = ⟨1, 1⟩ := by
  obtain ⟨after, hok⟩ := Parser.eq_ok_of_outcome hread
  obtain ⟨_, _, rfl, hderives⟩ := (reads_union _).of_ok hok
  obtain ⟨ls, c, cs, hls, hspace, htext⟩ := exists_heading hderives hlaid
  obtain ⟨first, rest, hcut, hfirst, hform⟩ := form_type hspace htext
  have hflows : ∀ line ∈ rest, Flows line := by
    rw [hcut, List.tail_cons] at hlines
    exact fun line hline => flows_of_hangs (hlines line hline)
  obtain ⟨moved, hscan, hlexemes, hpos⟩ :=
    scan_laid (fun run hrun => hrun.separating) hlaid (List.forall_mem_map.mpr hvalid) 1
  have hheading : ("type ".toList <+: text.toList ∨ "type\n".toList <+: text.toList) ↔
      c = ' ' ∨ c = '\n' := by
    rw [htext]
    simp [eq_comm]
  refine ⟨ofText_eq_whole hcut hfirst hflows, ?_⟩
  split
  · next hstart =>
    have hunion : formOf text 1 = .ok .union := by
      rw [formOf, hcut, classify_eq hfirst (hform.mpr (hheading.mp hstart))]
    have hmoved : DerivesUnion moved.tokens declared :=
      derivesUnion_relaid hderives hlexemes (inline_of_scan hscan (hlexemes.trans hls) hlines)
    rw [read_whole_zero, hunion, hscan]
    exact Parser.outcome_of_accepts ((accepts_union hmoved).map Decl.union)
  · next hstart =>
    have hnone : form (first :: rest) ≠ some .union := by
      rwa [Ne, hform, ← hheading]
    obtain ⟨t, ts, htokens, ht, _⟩ := List.map_eq_cons_iff.mp (hlexemes.trans hls)
    rw [htokens] at hpos
    exact read_keyword hcut hfirst hnone hscan htokens ht (Option.some.inj hpos)

/-- A union over three lines, and one with a tab behind its first word. -/
theorem read_laid_union_tab :
    (whole 0 "type Maybe a =\r\n\tJust\n| Nothing").read =
      .ok (.union ⟨"Maybe", [.var "a"], [⟨"Just", []⟩, ⟨"Nothing", []⟩]⟩) ∧
    ∃ d, (whole 0 "type\tMaybe a = Just | Nothing").read = .error d ∧ d.pos = ⟨1, 1⟩ := by
  let found : Scan := ⟨[⟨.keyword .typeWord, ⟨1, 1⟩⟩, ⟨.ident "Maybe", ⟨1, 6⟩⟩,
    ⟨.ident "a", ⟨1, 12⟩⟩, ⟨.symbol .equals, ⟨1, 14⟩⟩, ⟨.ident "Just", ⟨1, 16⟩⟩,
    ⟨.symbol .bar, ⟨1, 21⟩⟩, ⟨.ident "Nothing", ⟨1, 23⟩⟩], ⟨1, 30⟩⟩
  have hvalid : ∀ t ∈ found.tokens, t.lexeme.valid = true := by decide +kernel
  have hread : Grammar.union.outcome (Cursor.ofScan found) =
      .ok ⟨"Maybe", [.var "a"], [⟨"Just", []⟩, ⟨"Nothing", []⟩]⟩ := by decide +kernel
  -- the two texts differ in the runs behind the keyword, the equals sign and the first tag
  have hlaid {run₁ run₂ run₃ : List Char} (h₁ : IsSpaces run₁) (h₂ : IsSpaces run₂)
      (h₃ : IsSpaces run₃) : Laid IsSpaces (found.tokens.map Token.lexeme) _ :=
    .cons _ h₁ (.cons _ isSpaces_blank (.cons _ isSpaces_blank (.cons _ h₂ (.cons _ h₃
      (.cons _ isSpaces_blank (.last _))))))
  have hspread : IsSpaces ['\r', '\n', '\t'] := by simp [IsSpaces, isSpace, isGap]
  have hnewline : IsSpaces ['\n'] := by simp [IsSpaces, isSpace, isGap]
  have htab : IsSpaces ['\t'] := by simp [IsSpaces, isSpace, isGap]
  constructor
  · exact (@read_laid_union found _ "type Maybe a =\r\n\tJust\n| Nothing" hvalid hread
      (hlaid isSpaces_blank hspread hnewline) (by decide +kernel)).2
  · exact (@read_laid_union found _ "type\tMaybe a = Just | Nothing" hvalid hread
      (hlaid htab isSpaces_blank isSpaces_blank) (by decide +kernel)).2

end Block

end Polyglot
