import Polyglot.Proofs.Block.Partition
import Polyglot.Proofs.Decl.Surface

/-!
# Cutting written declarations into blocks

Written declarations with blank lines between them are cut into one block each, and each block is
recognised for what it is.

Results:
1. `piece_written`: the lines of a declaration go into one block.
2. `read_written`: that block is read as the normal form of the declaration, unless its body
   compares the result of a comparison.
-/

namespace Polyglot

/-! ## Names in a raw line -/

theorem isNamePart_of_isPlainName {name : String} (h : isPlainName name) :
    name.toList ≠ [] ∧ ∀ c ∈ name.toList, isNamePart c = true := by
  rw [isPlainName, Lexeme.valid, Bool.and_eq_true] at h
  cases hname : name.toList with
  | nil =>
    rw [hname] at h
    cases h.1
  | cons c cs =>
    rw [hname, isName, Bool.and_eq_true] at h
    refine ⟨List.cons_ne_nil _ _, List.forall_mem_cons.mpr ⟨?_, List.all_eq_true.mp h.1.2⟩⟩
    exact isNamePart_of_isNameStart h.1.1

theorem isNameChar_of_isNamePart {c : Char} (h : isNamePart c = true) :
    Text.isNameChar c = true := by
  simp only [isNamePart, Char.isAlphanum, Bool.or_eq_true] at h
  simp only [Text.isNameChar, Text.isLetter, Text.isNumeral, Bool.or_eq_true]
  rcases h with (h | h) | h
  · exact .inl (.inl (.inl h))
  · exact .inl (.inr (.inl h))
  · exact .inr h

/-- The scanner's names are identifiers. -/
theorem isIdentifier_of_isPlainName {name : String} (h : isPlainName name) :
    Text.isIdentifier name.toList = true := by
  rw [isPlainName, Lexeme.valid, Bool.and_eq_true] at h
  cases hname : name.toList with
  | nil =>
    rw [hname] at h
    cases h.1
  | cons c cs =>
    rw [hname, isName, Bool.and_eq_true, isNameStart, Bool.or_eq_true] at h
    rw [Text.isIdentifier, Bool.and_eq_true, Bool.or_eq_true, List.all_eq_true]
    refine ⟨h.1.1.imp_left Text.isLetter_of_isAlpha, fun d hd => ?_⟩
    exact isNameChar_of_isNamePart (List.all_eq_true.mp h.1.2 d hd)

theorem ne_of_isNamePart {c d : Char} (h : isNamePart c = true) (hd : isNamePart d = false) :
    c ≠ d := by
  rintro rfl
  rw [h] at hd
  cases hd

theorem before_append {c : Char} {cs rest : List Char} (hc : isNamePart c = false)
    (h : ∀ d ∈ cs, isNamePart d = true) :
    Heading.before c (cs ++ rest) = cs ++ Heading.before c rest :=
  List.takeWhile_append_of_pos fun d hd => bne_iff_ne.mpr (ne_of_isNamePart (h d hd) hc)

namespace Text

theorem dropWhile_visible {cs : List Char} (h : ∀ c ∈ cs, isBlank c = false) :
    cs.dropWhile isBlank = cs := by
  cases cs with
  | nil => rfl
  | cons c cs =>
    have hc := h c List.mem_cons_self
    rw [List.dropWhile_cons_of_neg (by simp [hc])]

theorem trim_visible {cs : List Char} (h : ∀ c ∈ cs, isBlank c = false) : trim cs = cs := by
  have hreverse : ∀ c ∈ cs.reverse, isBlank c = false :=
    fun c hc => h c (List.mem_reverse.mp hc)
  rw [trim, dropWhile_visible h, dropWhile_visible hreverse, List.reverse_reverse]

/-- Words with a blank behind each of them. -/
theorem words_flatMap {names : List String}
    (h : ∀ name ∈ names, name.toList ≠ [] ∧ ∀ c ∈ name.toList, isBlank c = false) :
    words (names.flatMap fun name => name.toList ++ [' ']) = names.map String.toList := by
  unfold words
  induction names with
  | nil => simp [List.splitOnP_nil]
  | cons name names ih =>
    rw [List.forall_mem_cons] at h
    have hfirst : (name.toList ++ [' '] ++ names.flatMap fun name => name.toList ++ [' ']).splitOnP
        isBlank = name.toList :: (names.flatMap fun name => name.toList ++ [' ']).splitOnP isBlank := by
      rw [List.append_assoc]
      exact List.splitOnP_append_cons_of_forall_mem h.1.2 ' ' (by decide) _
    rw [List.flatMap_cons, hfirst, List.filter_cons_of_pos (by simpa using h.1.1), ih h.2,
      List.map_cons]

end Text

/-! ## Heading lines -/

namespace Heading

theorem signatureLine_toList (equation : Equation) :
    ∃ types, equation.signatureLine.toList = equation.name.toList ++ ':' :: types := by
  refine ⟨' ' :: (" -> ".intercalate (Surface.typeTexts .derw false equation.types)).toList, ?_⟩
  rw [Equation.signatureLine, Surface.signatureLine, String.toList_append, String.toList_append,
    List.append_assoc]
  rfl

theorem signatureName_signatureLine {equation : Equation} (h : equation.Proper) :
    signatureName equation.signatureLine = some equation.name := by
  obtain ⟨types, hline⟩ := signatureLine_toList equation
  obtain ⟨_, hname⟩ := isNamePart_of_isPlainName h.name
  have hblank : ∀ c ∈ equation.name.toList, Text.isBlank c = false :=
    fun c hc => isBlank_of_isNamePart (hname c hc)
  have hhead : before '=' equation.signatureLine.toList =
      equation.name.toList ++ ':' :: before '=' types := by
    rw [hline, before_append (by decide) hname]
    rfl
  have hbefore : before ':' (equation.name.toList ++ ':' :: before '=' types) =
      equation.name.toList := by
    rw [before_append (by decide) hname]
    simp [before]
  simp only [signatureName, hhead, hbefore, Text.trim_visible hblank,
    isIdentifier_of_isPlainName h.name, Bool.and_true, String.ofList_toList]
  rw [if_pos (by simp)]

theorem clauseLine_toList (equation : Equation) :
    equation.clauseLine.toList =
      ((equation.name :: equation.paramNames).flatMap fun name => name.toList ++ [' ']) ++ ['='] := by
  rw [Equation.clauseLine, String.toList_append, ← String.toList_intercalate_space, List.append_assoc]
  rfl

theorem equationWords_clauseLine {equation : Equation} (h : equation.Proper) :
    equationWords equation.clauseLine = some (equation.name :: equation.paramNames) := by
  have hplain := Equation.names_plain h
  generalize hnames : equation.name :: equation.paramNames = names at hplain
  have hline : equation.clauseLine.toList =
      (names.flatMap fun name => name.toList ++ [' ']) ++ ['='] := by
    rw [clauseLine_toList, hnames]
  have hbefore : before '=' equation.clauseLine.toList =
      names.flatMap fun name => name.toList ++ [' '] := by
    rw [hline, before, List.takeWhile_append_of_pos]
    · simp
    · intro c hc
      obtain ⟨name, hname, hc⟩ := List.mem_flatMap.mp hc
      rcases List.mem_append.mp hc with hc | hc
      · have hpart := (isNamePart_of_isPlainName (hplain name hname)).2 c hc
        exact bne_iff_ne.mpr (ne_of_isNamePart hpart (by decide))
      · rw [List.mem_singleton.mp hc]
        decide
  have hwords : Text.words (before '=' equation.clauseLine.toList) = names.map String.toList := by
    rw [hbefore]
    refine Text.words_flatMap fun name hname => ?_
    obtain ⟨hne, hparts⟩ := isNamePart_of_isPlainName (hplain name hname)
    exact ⟨hne, fun c hc => isBlank_of_isNamePart (hparts c hc)⟩
  have hall : (names.map String.toList).all Text.isIdentifier = true := by
    rw [List.all_map, List.all_eq_true]
    exact fun name hname => isIdentifier_of_isPlainName (hplain name hname)
  have hsome : names ≠ [] := by
    rw [← hnames]
    exact List.cons_ne_nil _ _
  have hback : (names.map String.toList).map String.ofList = names := by
    simp
  simp only [equationWords, hwords, hall, hback]
  rw [if_pos (by simp [hline, hsome])]

/-! ### Kinds of lines -/

theorem not_isBlankLine {line : String} {c : Char} (hc : c ∈ line.toList)
    (hvisible : Text.isBlank c = false) : isBlankLine line = false := by
  cases hblank : isBlankLine line with
  | false => rfl
  | true =>
    have hall := List.all_eq_true.mp hblank c hc
    rw [hvisible] at hall
    cases hall

theorem not_separates {line : String} {c : Char} {cs : List Char} (hline : line.toList = c :: cs)
    (hc : isNamePart c = true) : separates line = false := by
  have hhyphen : c ≠ '-' := ne_of_isNamePart hc (by decide)
  have hblank : isBlankLine line = false :=
    not_isBlankLine (by rw [hline]; exact List.mem_cons_self) (isBlank_of_isNamePart hc)
  have hcomment : isCommentLine line = false := by
    simp [isCommentLine, hline, List.isPrefixOf, hhyphen.symm]
  rw [separates, hblank, hcomment]
  rfl

/-- An indented line starts with a blank and holds something else. -/
theorem indented_line {ls : List Lexeme} {line : String} (h : Indented ls line) :
    separates line = false ∧ atColumnZero line = false ∧ '\n' ∉ line.toList := by
  obtain ⟨count, text, hcount, rfl, hspelled⟩ := h
  obtain ⟨c, cs, htext, hc⟩ := hspelled.visible
  obtain ⟨n, hn⟩ : ∃ n, 4 * count.toNat = n + 1 := ⟨4 * count.toNat - 1, by omega⟩
  have hline : (indentText count ++ text).toList =
      ' ' :: (List.replicate n ' ' ++ text.toList) := by
    rw [String.toList_append, indentText_toList, hn]
    rfl
  have hblank : isBlankLine (indentText count ++ text) = false :=
    not_isBlankLine (by simp [htext]) hc
  refine ⟨?_, ?_, ?_⟩
  · rw [separates, hblank, isCommentLine, hline]
    rfl
  · rw [atColumnZero, hline]
    rfl
  · rw [hline]
    simp [hspelled.not_mem_newline]

theorem plainName_first {name : String} (h : isPlainName name) :
    ∃ c cs, name.toList = c :: cs ∧ isNamePart c = true := by
  obtain ⟨hne, hparts⟩ := isNamePart_of_isPlainName h
  obtain ⟨c, cs, hname⟩ := List.exists_cons_of_ne_nil hne
  exact ⟨c, cs, hname, hparts c (hname ▸ List.mem_cons_self)⟩

theorem headLine_toList (union : Union) :
    ∃ cs, union.headLine.toList = 't' :: 'y' :: 'p' :: 'e' :: ' ' :: cs := by
  refine ⟨(" ".intercalate (union.name :: union.boundNames) ++ " =").toList, ?_⟩
  rw [Union.headLine, String.append_assoc, String.toList_append]
  rfl

theorem not_separates_headLine (union : Union) : separates union.headLine = false := by
  obtain ⟨cs, hline⟩ := headLine_toList union
  exact not_separates hline (by decide)

theorem not_separates_signatureLine {equation : Equation} (h : equation.Proper) :
    separates equation.signatureLine = false := by
  obtain ⟨types, hline⟩ := signatureLine_toList equation
  obtain ⟨c, cs, hname, hc⟩ := plainName_first h.name
  rw [hname] at hline
  exact not_separates hline hc

theorem not_separates_clauseLine {equation : Equation} (h : equation.Proper) :
    separates equation.clauseLine = false := by
  have hline := clauseLine_toList equation
  obtain ⟨c, cs, hname, hc⟩ := plainName_first h.name
  rw [List.flatMap_cons, hname] at hline
  exact not_separates hline hc

/-! ### Forms -/

theorem form_headLine (union : Union) (lines : List String) :
    form (union.headLine :: lines) = some .union := by
  obtain ⟨cs, hline⟩ := headLine_toList union
  rw [form, if_pos (.inr (by rw [hline]; rfl))]

/-- A signature line is no heading of a union: a colon comes right behind its first word. -/
theorem not_type_signatureLine {equation : Equation} (h : equation.Proper) :
    ¬ (equation.signatureLine = "type" ∨
      "type ".toList.isPrefixOf equation.signatureLine.toList = true) := by
  obtain ⟨types, hline⟩ := signatureLine_toList equation
  obtain ⟨_, hname⟩ := isNamePart_of_isPlainName h.name
  have hcolon : equation.signatureLine.toList.dropWhile isNamePart = ':' :: types := by
    rw [hline, List.dropWhile_append_of_pos hname]
    rfl
  rintro (heq | hprefix)
  · rw [heq] at hcolon
    cases hcolon
  · obtain ⟨rest, hrest⟩ := List.isPrefixOf_iff_prefix.mp hprefix
    rw [← hrest] at hcolon
    cases hcolon

theorem form_equation {equation : Equation} (h : equation.Proper) (lines : List String) :
    form (equation.signatureLine :: equation.clauseLine :: lines) =
      some (if 1 < (equation.name :: equation.paramNames).length then .function else .const) := by
  rw [form, if_neg (not_type_signatureLine h), signatureName_signatureLine h]
  simp [equationForm, equationWords_clauseLine h]

theorem form_signatureLine {equation : Equation} (h : equation.Proper) (lines : List String) :
    ∃ found, form (equation.signatureLine :: equation.clauseLine :: lines) = some found ∧
      Block.grammar found = Grammar.equation := by
  refine ⟨_, form_equation h lines, ?_⟩
  split <;> rfl

theorem continues_clauseLine {equation : Equation} (h : equation.Proper) :
    continues [equation.signatureLine] equation.clauseLine = true := by
  simp [continues, signatureName_signatureLine h, equationWords_clauseLine h]

end Heading

/-! ## Blocks -/

namespace Block

open Heading Grammar

theorem flows_of_indented {ls : List Lexeme} {lines : List String} (h : Many Indented ls lines) :
    ∀ line ∈ lines, Flows line := by
  intro line hline
  obtain ⟨_, _, hindented⟩ := h.exists_of_mem hline
  obtain ⟨hseparates, hcolumn, _⟩ := indented_line hindented
  refine ⟨hseparates, fun current => ?_⟩
  rw [joins, hcolumn]
  rfl

/-- The lines of a declaration go into one block. -/
theorem piece_written {decl : Decl} {lines : List String} (h : decl.Written lines) :
    Piece lines := by
  cases h with
  | @union declared lines _ _ hlines =>
    exact (Piece.single (not_separates_headLine declared)).append (flows_of_indented hlines)
  | @equation declared lines h _ hlines =>
    have hjoins : joins [declared.signatureLine] declared.clauseLine = true := by
      rw [joins, continues_clauseLine h, Bool.or_true]
    have hheads : Piece [declared.signatureLine, declared.clauseLine] :=
      .snoc (.single (not_separates_signatureLine h)) (not_separates_clauseLine h) hjoins
    exact hheads.append (flows_of_indented hlines)

/-- A blank line closes the block of the lines before it. -/
theorem segment_blank {current : List String} (h : current ≠ []) (number : Int)
    (rest : List String) :
    segment number current ("" :: rest) =
      ⟨form current, number - current.length, current⟩ :: segment (number + 1) [] rest := by
  have hblank : separates "" = true := rfl
  have hcurrent : current.isEmpty = false := by simpa using h
  rw [segment, hblank, if_pos rfl, closed, hcurrent]
  rfl

/-! ### Reading a block -/

theorem not_mem_newline_of_indented {ls : List Lexeme} {lines : List String}
    (h : Many Indented ls lines) : ∀ line ∈ lines, '\n' ∉ line.toList := by
  intro line hline
  obtain ⟨ms, _, hindented⟩ := h.exists_of_mem hline
  exact (indented_line hindented).2.2

theorem lines_written {decl : Decl} {lines : List String} (h : decl.Written lines) :
    Text.lines (Text.unlines lines) = lines := by
  cases h with
  | union h _ hlines =>
    refine lines_unlines (List.cons_ne_nil _ _) (List.forall_mem_cons.mpr ⟨?_, ?_⟩)
    · exact (Union.headLine_spelled h).not_mem_newline
    · exact not_mem_newline_of_indented hlines
  | equation h _ hlines =>
    refine lines_unlines (List.cons_ne_nil _ _) (List.forall_mem_cons.mpr ⟨?_, ?_⟩)
    · exact (Equation.signatureLine_spelled h).not_mem_newline
    · refine List.forall_mem_cons.mpr ⟨?_, not_mem_newline_of_indented hlines⟩
      exact (Equation.clauseLine_spelled h).not_mem_newline

theorem read_eq {block : Block} {found : Form} {tokens : Scan}
    (hlines : Text.lines block.text = block.lines)
    (hform : classify (block.start + 1) block.lines = .ok found)
    (hscan : scanLines (block.start + 1) block.lines = .ok tokens) :
    block.read = (grammar found).outcome (Cursor.ofScan tokens) := by
  rw [← hlines, ← scan_eq_scanLines] at hscan
  unfold read formOf
  rw [hlines, hform, hscan]
  rfl

theorem classify_eq {line : Int} {first : String} {rest : List String} {found : Form}
    (hfirst : separates first = false) (hform : form (first :: rest) = some found) :
    classify line (first :: rest) = .ok found := by
  have hblank : isBlankLine first = false := by
    rw [separates, Bool.or_eq_false_iff] at hfirst
    exact hfirst.1
  rw [classify, hblank, if_neg Bool.false_ne_true, hform]

theorem read_union {union : Union} (h : union.Proper) {lines : List String} (hne : lines ≠ [])
    (hlines : Many Indented union.tagLexemes lines) (hint : Option Form) (start : Int) :
    (Block.mk hint start (union.headLine :: lines)).read = .ok (.union union.normal) := by
  obtain ⟨first, hfirst, hts, _⟩ := scan_spelled (Union.headLine_spelled h) (start + 1)
  obtain ⟨found, hrest, hus, hcols⟩ := scanLines_indented hlines hne (start + 1 + 1)
  rw [read_eq (lines_written (.union h hne hlines))
    (classify_eq (not_separates_headLine union) (form_headLine union lines))
    (scanLines_cons_ok hfirst hne hrest)]
  exact outcome_union h rfl hts ⟨hus, fun t ht => Nat.ne_of_gt (hcols t ht)⟩

theorem read_equation {equation : Equation} (h : equation.Proper) {lines : List String}
    (hne : lines ≠ []) (hlines : Many Indented equation.body.bodyLexemes lines)
    (hint : Option Form) (start : Int) :
    (Block.mk hint start (equation.signatureLine :: equation.clauseLine :: lines)).read.toOption =
      (declaration equation).reread := by
  obtain ⟨first, hfirst, hts, hplace⟩ :=
    scan_spelled (Equation.signatureLine_spelled h) (start + 1)
  obtain ⟨second, hsecond, hus, hplace'⟩ :=
    scan_spelled (Equation.clauseLine_spelled h) (start + 1 + 1)
  obtain ⟨found, hrest, hvs, _⟩ := scanLines_indented hlines hne (start + 1 + 1 + 1)
  obtain ⟨kind, hform, hgrammar⟩ := form_signatureLine h lines
  rw [read_eq (lines_written (.equation h hne hlines))
    (classify_eq (not_separates_signatureLine h) hform)
    (scanLines_cons_ok hfirst (List.cons_ne_nil _ _) (scanLines_cons_ok hsecond hne hrest)), hgrammar]
  exact outcome_equation h rfl hplace hts hplace' hus hvs

/-- The block of a written declaration is read as what is left of the declaration. -/
theorem read_written {decl : Decl} {lines : List String} (h : decl.Written lines)
    (hint : Option Form) (start : Int) :
    (Block.mk hint start lines).read.toOption = decl.reread := by
  cases h with
  | union h hne hlines =>
    rw [read_union h hne hlines]
    rfl
  | equation h hne hlines => exact read_equation h hne hlines hint start

end Block

end Polyglot
