import Polyglot.Proofs.Block.Agreement
import Polyglot.Proofs.Block.Whole
import Polyglot.Proofs.Token.Parts
import Polyglot.Proofs.Token.Tiling

/-!
# Layouts of an equation

The body of an equation stands behind the equals sign, on the same line, on further lines that are
indented, or on both. Its layout is of no account: two bodies with the same lexemes are read alike
behind the same head.

The head alone decides what kind of block it is (`exists_form`). It is scanned alike before any body
that starts with white space, and the tokens of a body never start a line (`scan_layout`). So the
tokens of two layouts are alike, and the grammar cannot tell them apart (`read_relaid`).
-/

namespace Polyglot

/-! ## Words -/

namespace Text

/-- What is not blank belongs to a word. -/
theorem exists_word_of_mem {cs : List Char} {c : Char} (hc : c ∈ cs)
    (hvisible : isBlank c = false) : ∃ word ∈ words cs, c ∈ word := by
  induction hn : cs.length using Nat.strongRecOn generalizing cs with
  | ind n ih =>
    subst hn
    cases cs with
    | nil => cases hc
    | cons d cs =>
      cases hd : isBlank d with
      | true =>
        have hne : c ≠ d := by
          rintro rfl
          rw [hvisible] at hd
          cases hd
        rw [words_cons_blank hd]
        exact ih cs.length (Nat.lt_succ_self _) ((List.mem_cons.mp hc).resolve_left hne) rfl
      | false =>
        obtain ⟨word, rest, rfl, _, hwords⟩ := words_cons_visible hd cs
        rw [hwords]
        rcases List.mem_append.mp (by simpa using hc : c ∈ d :: word ++ rest) with hword | hrest
        · exact ⟨d :: word, List.mem_cons_self, hword⟩
        · have hshorter : rest.length < (d :: (word ++ rest)).length := by
            rw [List.length_cons, List.length_append]
            exact Nat.lt_succ_of_le (Nat.le_add_left _ _)
          obtain ⟨other, hother, hmem⟩ := ih rest.length hshorter hrest rfl
          exact ⟨other, List.mem_cons_of_mem _ hother, hmem⟩

theorem isNameChar_of_isIdentifier {cs : List Char} (h : isIdentifier cs = true) :
    ∀ c ∈ cs, isNameChar c = true := by
  cases cs with
  | nil => exact fun c hc => absurd hc List.not_mem_nil
  | cons c cs =>
    rw [isIdentifier, Bool.and_eq_true] at h
    refine List.forall_mem_cons.mpr ⟨?_, List.all_eq_true.mp h.2⟩
    have hfirst := h.1
    rw [Bool.or_eq_true] at hfirst
    rw [isNameChar, Bool.or_eq_true, Bool.or_eq_true]
    exact hfirst.imp .inl id

/-- What is not blank is not trimmed off. -/
theorem mem_trim {cs : List Char} {c : Char} (hc : c ∈ cs) (hvisible : isBlank c = false) :
    c ∈ trim cs := by
  obtain ⟨front, back, hcut, hfront, hback⟩ := exists_trim cs
  have hout {ds : List Char} (hds : ∀ d ∈ ds, isBlank d = true) : c ∉ ds := by
    intro hmem
    rw [hds c hmem] at hvisible
    cases hvisible
  rw [hcut, List.mem_append, List.mem_append] at hc
  exact (hc.resolve_left (hout hfront)).resolve_right (hout hback)

end Text

/-! ## Heads and bodies -/

namespace Heading

/-- What stands before the equals sign of an equation: its name and its parameters. -/
structure IsHead (name : String) (params : List String) (head : String) : Prop where
  oneLine : '\n' ∉ head.toList
  words : Text.words head.toList = (name :: params).map String.toList
  identifiers : ∀ word ∈ name :: params, Text.isIdentifier word.toList = true

/-- What stands behind the equals sign of an equation, with the lexemes `ls`: at least one blank,
and further lines that are indented. -/
structure IsBody (ls : List Lexeme) (body : String) : Prop where
  starts : ∃ c ∈ body.toList.head?, Text.isBlank c = true
  scanned : ∃ found, scan body 1 = .ok found ∧ found.tokens.map Token.lexeme = ls
  indented : ∀ line ∈ (Text.lines body).tail, isIndented line = true

/-- A line that declares a name. -/
structure IsSignature (name line : String) : Prop where
  oneLine : '\n' ∉ line.toList
  declares : signatureName line = some name

/-- An equation, below its signature if it has one. -/
def equationText (signature : Option String) (head body : String) : String :=
  match signature with
  | none => head ++ "=" ++ body
  | some line => line ++ "\n" ++ (head ++ "=" ++ body)

/-- The form of an equation with this head. The word `type` before the name would make it a
union. -/
def headForm (head : String) (params : List String) : Form :=
  if "type ".toList <+: head.toList then .union
  else if params.isEmpty then .const else .function

theorem clause_eq (head body : String) :
    head ++ "=" ++ body = String.ofList (head.toList ++ ['='] ++ body.toList) := by
  rw [← String.toList_inj]
  simp

theorem isCommentLine_of_head {line : String} (h : line.toList.head? ≠ some '-') :
    isCommentLine line = false := by
  rw [isCommentLine]
  cases hline : line.toList with
  | nil => rfl
  | cons c cs =>
    have hc : c ≠ '-' := by
      rintro rfl
      exact h (by rw [hline]; rfl)
    simp [List.isPrefixOf, hc.symm]

theorem IsSignature.not_separates {name line : String} (h : IsSignature name line) :
    separates line = false := by
  have hdeclares := h.declares
  rw [signatureName] at hdeclares
  split at hdeclares
  · next hline =>
    rw [Bool.and_eq_true, List.contains_iff_mem] at hline
    have hcolon : ':' ∈ line.toList := List.takeWhile_subset _ hline.1
    have hblank : isBlankLine line = false := not_isBlankLine hcolon (by decide)
    rw [separates, hblank, Bool.false_or]
    refine isCommentLine_of_head fun hhead => ?_
    -- a hyphen at the start of the line would be part of the name
    obtain ⟨cs, hcs⟩ := List.head?_eq_some_iff.mp hhead
    have hhyphen : '-' ∈ before ':' (before '=' line.toList) := by
      rw [hcs]
      exact List.mem_cons_self
    have hname := Text.isNameChar_of_isIdentifier hline.2 '-' (Text.mem_trim hhyphen (by decide))
    exact absurd hname (by decide +kernel)
  · cases hdeclares

namespace IsHead

variable {name head : String} {params : List String} (h : IsHead name params head)

include h

/-- A head holds blanks and the characters of names. -/
theorem not_mem {c : Char} (hvisible : Text.isBlank c = false) (hc : Text.isNameChar c = false) :
    c ∉ head.toList := by
  intro hmem
  obtain ⟨word, hword, hin⟩ := Text.exists_word_of_mem hmem hvisible
  rw [h.words, List.mem_map] at hword
  obtain ⟨text, htext, rfl⟩ := hword
  have hname := Text.isNameChar_of_isIdentifier (h.identifiers text htext) c hin
  rw [hc] at hname
  cases hname

theorem ne_nil : head.toList ≠ [] := by
  intro hnil
  have hwords := h.words
  rw [hnil] at hwords
  cases hwords

theorem before_eq (rest : List Char) : before '=' (head.toList ++ '=' :: rest) = head.toList := by
  have hequals : '=' ∉ head.toList := h.not_mem (by decide) (by decide +kernel)
  refine (List.takeWhile_of_head (fun c hc => ?_) fun c hc => ?_).1
  · exact bne_iff_ne.mpr (ne_of_mem_of_not_mem hc hequals)
  · cases hc
    rfl

/-- The words of an equation's line. -/
theorem equationWords_eq (rest : List Char) :
    equationWords (String.ofList (head.toList ++ '=' :: rest)) = some (name :: params) := by
  have hidentifiers : ((name :: params).map String.toList).all Text.isIdentifier = true := by
    rw [List.all_map]
    exact List.all_eq_true.mpr h.identifiers
  rw [equationWords, String.toList_ofList, h.before_eq, h.words, hidentifiers, if_pos (by simp),
    List.map_map]
  exact congrArg some (List.map_id'' (fun _ => String.ofList_toList) _)

/-- No signature: it would have a colon before the equals sign. -/
theorem signatureName_eq (rest : List Char) :
    signatureName (String.ofList (head.toList ++ '=' :: rest)) = none := by
  have hcolon : ':' ∉ head.toList := h.not_mem (by decide) (by decide +kernel)
  rw [signatureName, String.toList_ofList, h.before_eq, if_neg]
  simp [hcolon]

theorem not_separates (rest : List Char) :
    separates (String.ofList (head.toList ++ '=' :: rest)) = false := by
  have hequals : '=' ∈ (String.ofList (head.toList ++ '=' :: rest)).toList := by
    simp
  have hhyphen : '-' ∉ head.toList := h.not_mem (by decide) (by decide +kernel)
  rw [separates, not_isBlankLine hequals (by decide), Bool.false_or]
  refine isCommentLine_of_head fun hhead => hhyphen ?_
  obtain ⟨c, cs, hcs⟩ := List.exists_cons_of_ne_nil h.ne_nil
  rw [String.toList_ofList, hcs] at hhead
  rw [hcs, ← Option.some.inj hhead]
  exact List.mem_cons_self

omit h in
/-- Whether a line starts with `type` shows in its head. -/
theorem isPrefixOf_type_iff (rest : List Char) :
    "type ".toList <+: head.toList ++ '=' :: rest ↔ "type ".toList <+: head.toList := by
  refine ⟨fun hstart => ?_, fun hstart => hstart.trans (List.prefix_append _ _)⟩
  by_cases hlength : "type ".toList.length ≤ head.toList.length
  · exact List.prefix_of_prefix_length_le hstart (List.prefix_append _ _) hlength
  · -- the equals sign would be part of the word
    have hsign : head.toList ++ ['='] <+: head.toList ++ '=' :: rest :=
      ⟨rest, by rw [List.append_assoc]; rfl⟩
    have hin : head.toList ++ ['='] <+: "type ".toList := by
      refine List.prefix_of_prefix_length_le hsign hstart ?_
      rw [List.length_append]
      exact Nat.lt_of_not_le hlength
    have hmem : '=' ∈ "type ".toList := hin.subset (by simp)
    exact absurd hmem (by decide)

/-- The form of an equation depends on its head alone. -/
theorem form_eq (rest : List Char) (lines : List String) :
    form (String.ofList (head.toList ++ '=' :: rest) :: lines) =
      some (headForm head params) := by
  have hword : String.ofList (head.toList ++ '=' :: rest) ≠ "type" := by
    intro heq
    have hmem : '=' ∈ "type".toList := by
      rw [← heq, String.toList_ofList]
      simp
    exact absurd hmem (by decide)
  have hstart :
      "type ".toList.isPrefixOf (String.ofList (head.toList ++ '=' :: rest)).toList = true ↔
        "type ".toList <+: head.toList := by
    have hline : (String.ofList (head.toList ++ '=' :: rest)).toList = head.toList ++ '=' :: rest :=
      String.toList_ofList
    rw [List.isPrefixOf_iff_prefix, hline, isPrefixOf_type_iff]
  rw [headForm, form, h.signatureName_eq, equationForm, h.equationWords_eq]
  by_cases htype : "type ".toList <+: head.toList
  · rw [if_pos (.inr (hstart.mpr htype)), if_pos htype]
  · rw [if_neg fun hor => hor.elim hword fun hfirst => htype (hstart.mp hfirst), if_neg htype]
    cases params <;> rfl

end IsHead

end Heading

namespace Block

open Heading

/-! ## The block -/

/-- The lines of an equation without a signature. -/
theorem exists_lines {name head body : String} {params : List String} {ls : List Lexeme}
    (hhead : IsHead name params head) (hbody : IsBody ls body) :
    ∃ rest more, Text.lines (head ++ "=" ++ body) =
      String.ofList (head.toList ++ '=' :: rest) :: more ∧ ∀ line ∈ more, Flows line := by
  have hpart : '\n' ∉ head.toList ++ ['='] := by simp [hhead.oneLine]
  obtain ⟨first, more, hlines, hall⟩ := Text.lines_append hpart body.toList
  refine ⟨first, more, ?_, ?_⟩
  · rw [clause_eq, hall, List.append_assoc]
    rfl
  · have hindented := hbody.indented
    rw [String.ofList_toList] at hlines
    rw [hlines] at hindented
    exact fun line hline => flows_of_hangs (by rw [hangs, hindented line hline, Bool.true_or])

/-- The head of an equation and its signature make a block, whatever the body, and decide on its
form. -/
theorem exists_form {signature : Option String} {name head : String} {params : List String}
    (hsignature : ∀ line ∈ signature, IsSignature name line) (hhead : IsHead name params head) :
    ∃ kind, ∀ {ls : List Lexeme} {body : String}, IsBody ls body →
      ofText (equationText signature head body) =
        [whole 0 (equationText signature head body)] ∧
      form (Text.lines (equationText signature head body)) = some kind ∧
      formOf (equationText signature head body) 1 = .ok kind := by
  cases signature with
  | none =>
    refine ⟨headForm head params, fun {ls body} hbody => ?_⟩
    obtain ⟨rest, more, hlines, hmore⟩ := exists_lines hhead hbody
    have hfirst := hhead.not_separates rest
    have hform := hhead.form_eq rest more
    refine ⟨ofText_eq_whole hlines hfirst hmore, ?_, ?_⟩
    · rw [equationText, hlines, hform]
    · rw [formOf, equationText, hlines, classify_eq hfirst hform]
  | some line =>
    have hline := hsignature line rfl
    refine ⟨if line = "type" ∨ "type ".toList.isPrefixOf line.toList then .union
      else if params.isEmpty then .const else .function, fun {ls body} hbody => ?_⟩
    obtain ⟨rest, more, hlines, hmore⟩ := exists_lines hhead hbody
    have hall : Text.lines (equationText (some line) head body) =
        line :: String.ofList (head.toList ++ '=' :: rest) :: more := by
      rw [equationText, Text.lines_below hline.oneLine, hlines]
    have hform : form (line :: String.ofList (head.toList ++ '=' :: rest) :: more) = some
        (if line = "type" ∨ "type ".toList.isPrefixOf line.toList then .union
          else if params.isEmpty then .const else .function) := by
      rw [form, hline.declares]
      split
      · rfl
      · rw [Option.isSome_some, if_pos rfl, List.head?_cons, Option.bind_some, equationForm,
          hhead.equationWords_eq]
        cases params <;> rfl
    have hgoes : GoesOn [line] (String.ofList (head.toList ++ '=' :: rest)) :=
      .inr ⟨line, name, params, rfl, hline.declares, hhead.equationWords_eq rest⟩
    refine ⟨ofText_eq_whole_of_signature hall hline.not_separates (hhead.not_separates rest) hgoes
      hmore, ?_, ?_⟩
    · rw [hall, hform]
    · rw [formOf, hall, classify_eq hline.not_separates hform]

/-! ## The tokens -/

/-- White space before a text that can be scanned is white space to the scanner. -/
theorem isSpace_of_isBlank {c : Char} {cs : List Char} {line : Int} {col : Nat} {found : Scan}
    (h : scanFrom line col (c :: cs) = .ok found) (hc : Text.isBlank c = true) :
    isSpace c = true := by
  by_contra hspace
  rw [Bool.not_eq_true] at hspace
  by_cases hcomment : OpensComment (c :: cs)
  · obtain ⟨body, hbody⟩ := hcomment
    rw [(List.cons.inj hbody).1] at hc
    exact absurd hc (by decide)
  · obtain ⟨l, hlongest⟩ := exists_longest_of_scanFrom h hspace hcomment
    obtain ⟨d, part, hspelling, hvisible⟩ := spelling_visible hlongest.valid
    have hspelled := hlongest.spelled
    rw [hspelling, List.cons_prefix_cons] at hspelled
    rw [hspelled.1, hc] at hvisible
    cases hvisible

/-- No token of a body starts a line. -/
theorem col_of_scanFrom {line : Int} {col : Nat} {cs : List Char} {found : Scan}
    (h : scanFrom line col cs = .ok found) (hcol : 1 < col)
    (hlines : ∀ content ∈ (Text.lines (String.ofList cs)).tail, isIndented content = true) :
    ∀ t ∈ found.tokens, t.pos.col ≠ 1 := by
  have hfirst {first : List Char} {above : Scan} (hline : '\n' ∉ first)
      (hscan : scanFrom line col first = .ok above) : ∀ t ∈ above.tokens, t.pos.col ≠ 1 :=
    fun t ht => Nat.ne_of_gt
      (Nat.lt_of_lt_of_le hcol ((scans_of_scanFrom hline hscan).1.onLine.1 t ht).2.1)
  rcases exists_line cs with hlast | ⟨first, rest, rfl, hline⟩
  · exact hfirst hlast h
  · rw [scanFrom_below] at h
    rw [Text.lines_append_newline hline, List.tail_cons] at hlines
    obtain ⟨above, habove, hmore⟩ := exists_of_bind_eq_ok h
    obtain ⟨below, hbelow, hmade⟩ := exists_of_bind_eq_ok hmore
    cases hmade
    refine List.forall_mem_append.mpr ⟨hfirst hline habove, fun t ht hstart => ?_⟩
    rw [← String.toList_ofList (l := rest)] at hbelow
    obtain ⟨content, hcontent, c, hhead, hgap, _⟩ := (scansLines_of_scan hbelow).spelled ht hstart
    obtain ⟨d, hd, hblank⟩ := head_of_isIndented (hlines content hcontent)
    obtain rfl : c = d := Option.mem_unique hhead hd
    rcases hblank with rfl | rfl <;> cases hgap

/-- The tokens of an equation from the line `line` on. Scanning fails in the head or not at all, and
the head is scanned alike before any body. -/
theorem scan_clause {name head : String} {params : List String} (hhead : IsHead name params head)
    (line : Int) :
    (∃ d, ∀ {ls : List Lexeme} {body : String}, IsBody ls body →
      scan (head ++ "=" ++ body) line = .error d) ∨
    ∃ ts, ∀ {ls : List Lexeme} {body : String}, IsBody ls body →
      ∃ us finish, scan (head ++ "=" ++ body) line = .ok ⟨ts ++ us, finish⟩ ∧
        us.map Token.lexeme = ls ∧ ∀ u ∈ us, u.pos.col ≠ 1 := by
  have hplain : IsPlainPart (head.toList ++ ['=']) := by
    have hquote : '"' ∉ head.toList := hhead.not_mem (by decide) (by decide +kernel)
    have hhyphen : '-' ∉ head.toList := hhead.not_mem (by decide) (by decide +kernel)
    constructor <;> simp [hquote, hhyphen]
  have hline : '\n' ∉ head.toList ++ ['='] := by simp [hhead.oneLine]
  have hscan {ls : List Lexeme} {body : String} (hbody : IsBody ls body) :
      scan (head ++ "=" ++ body) line = (do
        let first ← scanFrom line 1 (head.toList ++ ['='])
        prepend first.tokens
          (scanFrom line (1 + (head.toList ++ ['=']).length) body.toList)) := by
    obtain ⟨c, hc, hblank⟩ := hbody.starts
    obtain ⟨found, hfound, _⟩ := hbody.scanned
    obtain ⟨cs, hcs⟩ := List.head?_eq_some_iff.mp hc
    rw [clause_eq, scan, String.toList_ofList, scanFrom_append hplain hline]
    intro d hd
    obtain rfl : c = d := Option.mem_unique hc hd
    rw [scan, hcs] at hfound
    exact isSpace_of_isBlank hfound hblank
  cases hfirst : scanFrom line 1 (head.toList ++ ['=']) with
  | error d =>
    refine .inl ⟨d, fun hbody => ?_⟩
    rw [hscan hbody, hfirst]
    rfl
  | ok found =>
    refine .inr ⟨found.tokens, fun {ls body} hbody => ?_⟩
    obtain ⟨alone, halone, hls⟩ := hbody.scanned
    obtain ⟨behind, hbehind, hlexemes⟩ := scanFrom_elsewhere halone line
      (1 + (head.toList ++ ['=']).length)
    refine ⟨behind.tokens, behind.finish, ?_, hlexemes.trans hls, ?_⟩
    · rw [hscan hbody, hfirst, hbehind]
      rfl
    · refine col_of_scanFrom hbehind (by simp) ?_
      rw [String.ofList_toList]
      exact hbody.indented

/-- The same with a signature above the equation, or without one. -/
theorem scan_layout {signature : Option String} {name head : String} {params : List String}
    (hsignature : ∀ line ∈ signature, IsSignature name line) (hhead : IsHead name params head) :
    (∃ d, ∀ {ls : List Lexeme} {body : String}, IsBody ls body →
      scan (equationText signature head body) 1 = .error d) ∨
    ∃ ts, ∀ {ls : List Lexeme} {body : String}, IsBody ls body →
      ∃ us finish, scan (equationText signature head body) 1 = .ok ⟨ts ++ us, finish⟩ ∧
        us.map Token.lexeme = ls ∧ ∀ u ∈ us, u.pos.col ≠ 1 := by
  cases signature with
  | none => exact scan_clause hhead 1
  | some line =>
    have hscan (body : String) : scan (equationText (some line) head body) 1 = (do
        let first ← scan line 1
        let more ← scan (head ++ "=" ++ body) (1 + 1)
        return first.followedBy more) := by
      rw [equationText, scan_newline, List.count_eq_zero_of_not_mem (hsignature line rfl).oneLine]
      rfl
    cases hfirst : scan line 1 with
    | error d =>
      refine .inl ⟨d, fun {ls body} _ => ?_⟩
      rw [hscan, hfirst]
      rfl
    | ok found =>
      rcases scan_clause hhead (1 + 1) with ⟨d, herror⟩ | ⟨ts, hok⟩
      · refine .inl ⟨d, fun {ls body} hbody => ?_⟩
        rw [hscan, hfirst, herror hbody]
        rfl
      · refine .inr ⟨found.tokens ++ ts, fun {ls body} hbody => ?_⟩
        obtain ⟨us, finish, hrest, hlexemes, hcols⟩ := hok hbody
        refine ⟨us, finish, ?_, hlexemes, hcols⟩
        rw [hscan, hfirst, hrest, List.append_assoc]
        rfl

/-! ## Reading -/

/-- Tokens that start no line are alike if their lexemes are. -/
theorem alike_of_lexemes {us us' : List Token}
    (hlexemes : us.map Token.lexeme = us'.map Token.lexeme) (h : ∀ u ∈ us, u.pos.col ≠ 1)
    (h' : ∀ u ∈ us', u.pos.col ≠ 1) : List.Forall₂ (Token.Alike fun _ _ => True) us us' := by
  induction us generalizing us' with
  | nil =>
    rw [List.map_eq_nil_iff.mp hlexemes.symm]
    exact .nil
  | cons u us ih =>
    obtain ⟨u', us', rfl, hu, hus⟩ := List.map_eq_cons_iff.mp hlexemes.symm
    rw [List.forall_mem_cons] at h h'
    exact .cons ⟨hu.symm, trivial, iff_of_false h.1 h'.1⟩ (ih hus.symm h.2 h'.2)

/-- Two bodies with the same lexemes behind one head: both texts are one block, of the same form,
and they are read as the same declaration or refused for the same reason. -/
theorem read_relaid {signature : Option String} {name head body body' : String}
    {params : List String} {ls : List Lexeme}
    (hsignature : ∀ line ∈ signature, IsSignature name line) (hhead : IsHead name params head)
    (hbody : IsBody ls body) (hbody' : IsBody ls body') :
    ∃ block block', ofText (equationText signature head body) = [block] ∧
      block.lines = Text.lines (equationText signature head body) ∧
      ofText (equationText signature head body') = [block'] ∧
      block'.lines = Text.lines (equationText signature head body') ∧
      (∃ kind, block.hint = some kind ∧ block'.hint = some kind) ∧
      ((∃ decl, block.read = .ok decl ∧ block'.read = .ok decl) ∨
        ∃ d d', block.read = .error d ∧ block'.read = .error d' ∧
          d.area = d'.area ∧ d.problem = d'.problem) := by
  obtain ⟨kind, hkind⟩ := exists_form hsignature hhead
  obtain ⟨hblock, hhint, hform⟩ := hkind hbody
  obtain ⟨hblock', hhint', hform'⟩ := hkind hbody'
  refine ⟨_, _, hblock, rfl, hblock', rfl, ⟨kind, hhint, hhint'⟩, ?_⟩
  rw [read_whole_zero, read_whole_zero, hform, hform']
  rcases scan_layout hsignature hhead with ⟨d, herror⟩ | ⟨ts, hok⟩
  · rw [herror hbody, herror hbody']
    exact .inr ⟨d, d, rfl, rfl, rfl, rfl⟩
  · obtain ⟨us, finish, hscan, hlexemes, hcols⟩ := hok hbody
    obtain ⟨us', finish', hscan', hlexemes', hcols'⟩ := hok hbody'
    have hsame : List.Forall₂ (Token.Alike fun _ _ => True) ts ts :=
      List.forall₂_same.mpr fun t _ => ⟨rfl, trivial, Iff.rfl⟩
    have halike := List.rel_append hsame
      (alike_of_lexemes (hlexemes.trans hlexemes'.symm) hcols hcols')
    rw [hscan, hscan']
    rcases (Grammar.steady_grammar kind).outcome ⟨ts ++ us, finish⟩ ⟨ts ++ us', finish'⟩ halike
      trivial with hread | ⟨d, d', hread, hread', hd⟩
    · exact .inl hread
    · exact .inr ⟨d, d', hread, hread', hd.area, hd.problem⟩

/-- A body on the line of its head, and the same over three lines with a comment among them. -/
theorem read_relaid_commented :
    let decl : Decl := .function ⟨"f", [⟨"x", .named "number" []⟩], .named "number" [],
      .binary .add (.value "x") (.value "1")⟩
    ∃ block block', ofText "f: number -> number\nf x = x + 1" = [block] ∧
      ofText "f: number -> number\nf x =\n    -- the next\n    x +\n\t1" = [block'] ∧
      block.hint = some .function ∧ block'.hint = some .function ∧
      block.read = .ok decl ∧ block'.read = .ok decl := by
  have hsignature : ∀ line ∈ some "f: number -> number", IsSignature "f" line := by
    rintro _ ⟨⟩
    exact ⟨by decide, by decide +kernel⟩
  have hhead : IsHead "f" ["x"] "f x " := ⟨by decide, by decide +kernel, by decide +kernel⟩
  have hbody : IsBody [.ident "x", .symbol .plus, .number "1"] " x + 1" :=
    ⟨⟨' ', rfl, by decide⟩,
      ⟨⟨[⟨.ident "x", ⟨1, 2⟩⟩, ⟨.symbol .plus, ⟨1, 4⟩⟩, ⟨.number "1", ⟨1, 6⟩⟩], ⟨1, 7⟩⟩,
        by decide +kernel, rfl⟩, by decide +kernel⟩
  have hbody' : IsBody [.ident "x", .symbol .plus, .number "1"]
      "\n    -- the next\n    x +\n\t1" :=
    ⟨⟨'\n', rfl, by decide⟩,
      ⟨⟨[⟨.ident "x", ⟨3, 5⟩⟩, ⟨.symbol .plus, ⟨3, 7⟩⟩, ⟨.number "1", ⟨4, 2⟩⟩], ⟨4, 3⟩⟩,
        by decide +kernel, rfl⟩, by decide +kernel⟩
  obtain ⟨block, block', hblock, _, hblock', _, ⟨kind, hhint, hhint'⟩, hread⟩ :=
    read_relaid hsignature hhead hbody hbody'
  -- Only the text on one line is evaluated. The other is read alike.
  have hknown : ofText "f: number -> number\nf x = x + 1" =
      [⟨some .function, 0, ["f: number -> number", "f x = x + 1"]⟩] := by
    decide +kernel
  obtain rfl := (List.cons.inj (hblock.symm.trans hknown)).1
  obtain rfl := Option.some.inj hhint
  have hfirst : Block.read ⟨some .function, 0, ["f: number -> number", "f x = x + 1"]⟩ =
      .ok (.function ⟨"f", [⟨"x", .named "number" []⟩], .named "number" [],
        .binary .add (.value "x") (.value "1")⟩) := by
    decide +kernel
  refine ⟨_, block', hblock, hblock', rfl, hhint', hfirst, ?_⟩
  rcases hread with ⟨decl, hdecl, hdecl'⟩ | ⟨_, _, herror, _⟩
  · exact hdecl'.trans (hdecl.symm.trans hfirst)
  · rw [hfirst] at herror
    cases herror

end Block

end Polyglot
