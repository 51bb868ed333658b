import Polyglot.Proofs.Dialect.Plan
import Polyglot.Proofs.Expr.Proper

/-!
# Expressions written down

The derw dialect writes a proper expression as the lexemes `Expr.lexemes` inside a line, or as the
lexemes `Expr.bodyLexemes` on lines of its own.

Results:
1. `render_spelled`: inside a line, a proper expression is written as its lexemes.
2. `render_lines`: as a body, it is written as indented lines of its lexemes.
-/

namespace Polyglot

/-! ## The lexemes of an expression -/

def lambdaLexemes (params : List String) (body : List Lexeme) : List Lexeme :=
  .symbol .backslash :: (params.map Lexeme.ident ++ .symbol .arrow :: body)

def condLexemes (test yes no : List Lexeme) : List Lexeme :=
  .keyword .ifWord :: (test ++ .keyword .thenWord :: (yes ++ .keyword .elseWord :: no))

/-- The lexemes of a name or of a number, which may have a sign. -/
def wordLexemes (body : String) : List Lexeme :=
  match body.toList with
  | [] => []
  | c :: cs =>
      if c = '-' then [.symbol .minus, .number (String.ofList cs)]
      else if c.isDigit then [.number body]
      else [.ident body]

namespace Expr

mutual

/-- The lexemes of an expression inside a line. -/
def lexemes : Expr → List Lexeme
  | .value body => wordLexemes body
  | .str body => [.string body]
  | .list items => inBrackets .openBracket .closeBracket (lexemesAll items)
  | .record _ fields => inBrackets .openBrace .closeBrace (fieldLexemes fields)
  | .field name content => .ident name :: .symbol .colon :: lexemes content
  | .cond test yes no => inParens (condLexemes (lexemes test) (lexemes yes) (lexemes no))
  | .lambda params body => inParens (lambdaLexemes params (lexemes body))
  | .construct tag _ [] => [.ident tag]
  | .construct tag _ (first :: rest) =>
      .ident tag :: inBrackets .openBrace .closeBrace (fieldLexemes (first :: rest))
  | .call name args => .ident name :: (argumentLexemes args).flatten
  | .binary op left right =>
      parensIf (needsParens .left left.precedence op.precedence) (lexemes left) ++
        .symbol op.symbol ::
          parensIf (needsParens .right right.precedence op.precedence) (lexemes right)
  | .unknown _ => []

def lexemesAll : List Expr → List (List Lexeme)
  | [] => []
  | expr :: rest => lexemes expr :: lexemesAll rest

def argumentLexemes : List Expr → List (List Lexeme)
  | [] => []
  | arg :: rest => parensIf arg.needsArgumentParens (lexemes arg) :: argumentLexemes rest

def fieldLexemes : List (String × Expr) → List (List Lexeme)
  | [] => []
  | (name, content) :: rest =>
      (.ident name :: .symbol .colon :: lexemes content) :: fieldLexemes rest

end

theorem lexemesAll_eq_map (items : List Expr) : lexemesAll items = items.map lexemes := by
  induction items with
  | nil => rfl
  | cons e items ih => rw [lexemesAll, ih, List.map_cons]

theorem argumentLexemes_eq_map (args : List Expr) :
    argumentLexemes args = args.map fun arg => parensIf arg.needsArgumentParens arg.lexemes := by
  induction args with
  | nil => rfl
  | cons e items ih => rw [argumentLexemes, ih, List.map_cons]

theorem fieldLexemes_eq_map (fields : List (String × Expr)) :
    fieldLexemes fields =
      fields.map fun f => .ident f.1 :: .symbol .colon :: f.2.lexemes := by
  induction fields with
  | nil => rfl
  | cons f fields ih => rw [fieldLexemes, ih, List.map_cons]

/-- The lexemes of an expression on lines of its own: conditionals and lambdas need no
parentheses there. -/
def bodyLexemes : Expr → List Lexeme
  | .cond test yes no => condLexemes (lexemes test) (bodyLexemes yes) (bodyLexemes no)
  | .lambda params body => lambdaLexemes params (lexemes body)
  | expr => lexemes expr

theorem wordLexemes_name {name : String} (h : isPlainName name) :
    wordLexemes name = [.ident name] := by
  rw [isPlainName, Lexeme.valid, Bool.and_eq_true] at h
  unfold wordLexemes
  cases hname : name.toList with
  | nil =>
    rw [hname] at h
    cases h.1
  | cons c cs =>
    rw [hname, isName, Bool.and_eq_true] at h
    have hminus : c ≠ '-' := by
      rintro rfl
      exact absurd h.1.1 (by decide)
    dsimp only
    rw [if_neg hminus, isDigit_of_isNameStart h.1.1]
    rfl

theorem wordLexemes_number {digits : String} (h : isNumeral digits.toList = true) :
    wordLexemes digits = [.number digits] := by
  obtain ⟨whole, fraction, heq, hne, hwhole, _⟩ := isNumeral_iff.mp h
  obtain ⟨d, ds, rfl⟩ := List.exists_cons_of_ne_nil hne
  have hd := hwhole d List.mem_cons_self
  have hminus : d ≠ '-' := by
    rintro rfl
    exact absurd hd (by decide)
  unfold wordLexemes
  rw [heq, List.cons_append]
  dsimp only
  rw [if_neg hminus, if_pos hd]

theorem wordLexemes_negative (digits : String) :
    wordLexemes ("-" ++ digits) = [.symbol .minus, .number digits] := by
  have hchars : ("-" ++ digits).toList = '-' :: digits.toList := by
    rw [String.toList_append]
    rfl
  unfold wordLexemes
  rw [hchars]
  simp

end Expr

/-! ## Writing inside a line -/

/-- The rendering succeeds with `value` whatever the indent counter is, and leaves it alone. -/
def Render.Yields {α : Type} (part : Render α) (value : α) : Prop :=
  ∀ count, part count = .ok value count

/-- The dialect that texts are read in. -/
abbrev Dialect.derw : Dialect :=
  .styled (.surface .derw)

open Polyglot.Expr

/-- An expression inside a line is written as its lexemes. -/
def Writes (e : Expr) : Prop :=
  ∃ text, (Dialect.derw.render .inline e).Yields text ∧ Spelled text e.lexemes

theorem exists_texts {items : List Expr} (h : ∀ e ∈ items, Writes e) :
    ∃ texts, List.Forall₂ (fun e => (Dialect.derw.render .inline e).Yields) items texts ∧
      List.Forall₂ Spelled texts (lexemesAll items) := by
  induction items with
  | nil => exact ⟨[], .nil, .nil⟩
  | cons e items ih =>
    rw [List.forall_mem_cons] at h
    obtain ⟨text, hyield, hspelled⟩ := h.1
    obtain ⟨texts, hyields, hall⟩ := ih h.2
    exact ⟨text :: texts, .cons hyield hyields, .cons hspelled hall⟩

theorem fields_spelled {fields : List (String × Expr)} (hnames : ∀ f ∈ fields, isPlainName f.1)
    {texts : List String} (h : List.Forall₂ Spelled texts (lexemesAll (fields.map Prod.snd))) :
    List.Forall₂ Spelled (Style.fields (.surface .derw) fields texts) (fieldLexemes fields) := by
  induction fields generalizing texts with
  | nil => exact .nil
  | cons f fields ih =>
    rw [List.forall_mem_cons] at hnames
    cases h with
    | cons hfirst hrest => exact .cons (spelled_labelled hnames.1 hfirst) (ih hnames.2 hrest)

theorem arguments_spelled {args : List Expr} {texts : List String}
    (h : List.Forall₂ Spelled texts (lexemesAll args)) :
    List.Forall₂ Spelled
      (args.zipWith (fun arg text => parenthesized arg.needsArgumentParens text) texts)
      (argumentLexemes args) := by
  induction args generalizing texts with
  | nil => exact .nil
  | cons arg args ih =>
    cases h with
    | cons hfirst hrest => exact .cons (spelled_parenthesized hfirst _) (ih hrest)

theorem spelled_lambda {params : List String} {text : String} {ls : List Lexeme}
    (hne : params ≠ []) (hparams : ∀ p ∈ params, isPlainName p) (h : Spelled text ls) :
    Spelled (Surface.lambdaText params text) (lambdaLexemes params ls) := by
  have htext : Surface.lambdaText params text =
      Symbol.backslash.spelling ++ " ".intercalate params ++ " " ++ Symbol.arrow.spelling ++ " " ++
        text := by
    apply String.toList_injective
    simp [Surface.lambdaText, Symbol.spelling]
  have hlexemes : lambdaLexemes params ls =
      .symbol .backslash :: params.map Lexeme.ident ++ [.symbol .arrow] ++ ls := by
    simp [lambdaLexemes]
  rw [htext, hlexemes]
  exact .spaced (.spaced (.opened (.inr rfl) (spelled_names hne hparams)) (spelled_symbol .arrow)) h

/-- Texts between brackets, with blanks inside the brackets. -/
theorem spelled_bracketed {opening closing : Symbol} {f : List String → String}
    (hnil : f [] = opening.spelling ++ " " ++ closing.spelling)
    (hcons : ∀ text texts, f (text :: texts) = opening.spelling ++ " " ++
      ", ".intercalate (text :: texts) ++ " " ++ closing.spelling)
    {texts : List String} {parts : List (List Lexeme)} (h : List.Forall₂ Spelled texts parts) :
    Spelled (f texts) (inBrackets opening closing parts) := by
  cases h with
  | nil =>
    rw [hnil]
    exact .spaced (spelled_symbol opening) (spelled_symbol closing)
  | cons hfirst hrest =>
    rw [hcons]
    exact spelled_brackets opening closing (.cons hfirst hrest) (List.cons_ne_nil _ _)

/-- A record's text, from the texts of its fields. -/
theorem spelled_record {texts : List String} {parts : List (List Lexeme)}
    (h : List.Forall₂ Spelled texts parts) :
    Spelled (Style.record (.surface .derw) texts) (inBrackets .openBrace .closeBrace parts) := by
  refine spelled_bracketed rfl (fun text texts => ?_) h
  apply String.toList_injective
  simp [Style.record, Symbol.spelling]

theorem spelled_list {texts : List String} {parts : List (List Lexeme)}
    (h : List.Forall₂ Spelled texts parts) :
    Spelled (Style.list (.surface .derw) texts) (inBrackets .openBracket .closeBracket parts) := by
  refine spelled_bracketed rfl (fun text texts => ?_) h
  apply String.toList_injective
  simp [Style.list, Symbol.spelling]

theorem spelled_construct {tag : String} (htag : isPlainName tag)
    {fields : List (String × Expr)} {texts : List String}
    (h : List.Forall₂ Spelled texts (fieldLexemes fields)) (base : Option String) :
    Spelled (Style.construct (.surface .derw) tag texts) (lexemes (.construct tag base fields)) := by
  cases fields with
  | nil =>
    cases h
    exact spelled_ident htag
  | cons f fields =>
    obtain ⟨name, content⟩ := f
    cases h with
    | cons hfirst hrest => exact .spaced (spelled_ident htag) (spelled_record (.cons hfirst hrest))

theorem spelled_call {name : String} (hname : isPlainName name) {args : List Expr}
    {texts : List String} (h : List.Forall₂ Spelled texts (lexemesAll args)) :
    Spelled (Style.call (.surface .derw) name args texts) (lexemes (.call name args)) := by
  have hall := spelled_intercalate spelled_space
    (.cons (spelled_ident hname) (arguments_spelled h)) (List.cons_ne_nil _ _)
  rw [List.intercalate_nil_left] at hall
  exact hall

theorem spelled_conditional {test yes no : String} {ls ms ns : List Lexeme}
    (htest : Spelled test ls) (hyes : Spelled yes ms) (hno : Spelled no ns) :
    Spelled (Style.conditional (.surface .derw) test yes no) (inParens (condLexemes ls ms ns)) := by
  have hif := (spelled_keyword .ifWord).spaced htest
  have hthen := (hif.spaced (spelled_keyword .thenWord)).spaced hyes
  have helse := (hthen.spaced (spelled_keyword .elseWord)).spaced hno
  have htext : Style.conditional (.surface .derw) test yes no =
      "(" ++ (Keyword.ifWord.spelling ++ " " ++ test ++ " " ++ Keyword.thenWord.spelling ++ " " ++
        yes ++ " " ++ Keyword.elseWord.spelling ++ " " ++ no) ++ ")" := by
    apply String.toList_injective
    simp [Style.conditional, Keyword.spelling]
  have hlexemes : condLexemes ls ms ns =
      [.keyword .ifWord] ++ ls ++ [.keyword .thenWord] ++ ms ++ [.keyword .elseWord] ++ ns := by
    simp [condLexemes]
  rw [htext, hlexemes]
  exact spelled_parens helse

theorem spelled_binary {left right : Expr} {leftText rightText : String}
    (hleft : Spelled leftText left.lexemes) (hright : Spelled rightText right.lexemes)
    (op : BinaryOp) :
    Spelled (operandText .left left op.precedence leftText ++ " " ++ Dialect.derw.operator op ++
        " " ++ operandText .right right op.precedence rightText)
      (lexemes (.binary op left right)) := by
  have hsign : Dialect.derw.operator op = op.symbol.spelling := by
    cases op <;> rfl
  have hfirst := spelled_parenthesized hleft (needsParens .left left.precedence op.precedence)
  have hsecond := spelled_parenthesized hright (needsParens .right right.precedence op.precedence)
  have hall := (hfirst.spaced (spelled_symbol op.symbol)).spaced hsecond
  rw [List.append_assoc] at hall
  rw [hsign]
  exact hall

/-- A text that is put together inside a line. -/
theorem writes_line {e : Expr} {parts : List Expr} {f : List String → String} {texts : List String}
    (hplan : Dialect.derw.plan .inline e = .ok (.line parts f))
    (hparts : List.Forall₂ (fun part => (Dialect.derw.render .inline part).Yields) parts texts)
    (h : Spelled (f texts) e.lexemes) : Writes e :=
  ⟨f texts, fun count => Dialect.render_ok hplan (hparts.imp fun _ _ hpart => hpart count) .nil rfl,
    h⟩

/-- Inside a line, a proper expression is written as its lexemes. -/
theorem render_spelled {e : Expr} (h : e.Proper) : Writes e := by
  induction h with
  | @name name hname _ =>
    refine writes_line rfl .nil ?_
    rw [lexemes, wordLexemes_name hname]
    exact spelled_ident hname
  | @number digits hdigits =>
    refine writes_line rfl .nil ?_
    rw [lexemes, wordLexemes_number hdigits]
    exact .lexeme (l := .number digits) hdigits
  | @negative digits hdigits =>
    refine writes_line rfl .nil ?_
    rw [lexemes, wordLexemes_negative]
    exact .negative hdigits
  | @str body hbody => exact writes_line rfl .nil (.lexeme (l := .string body) hbody)
  | list _ ih =>
    obtain ⟨texts, hyields, hall⟩ := exists_texts ih
    exact writes_line rfl hyields (spelled_list hall)
  | record hnames _ ih =>
    obtain ⟨texts, hyields, hall⟩ := exists_texts (List.forall_mem_map.mpr ih)
    exact writes_line rfl hyields (spelled_record (fields_spelled hnames hall))
  | cond _ _ _ ihtest ihyes ihno =>
    obtain ⟨test, htest, hls⟩ := ihtest
    obtain ⟨yes, hyes, hms⟩ := ihyes
    obtain ⟨no, hno, hns⟩ := ihno
    exact writes_line rfl (.cons htest (.cons hyes (.cons hno .nil))) (spelled_conditional hls hms hns)
  | @lambda params body hne hparams _ ih =>
    obtain ⟨text, hyield, hls⟩ := ih
    exact writes_line rfl (.cons hyield .nil) (spelled_parens (spelled_lambda hne hparams hls))
  | @construct tag fields htag _ hnames _ ih =>
    obtain ⟨texts, hyields, hall⟩ := exists_texts (List.forall_mem_map.mpr ih)
    exact writes_line rfl hyields (spelled_construct htag (fields_spelled hnames hall) none)
  | @call name args hname _ _ _ ih =>
    obtain ⟨texts, hyields, hall⟩ := exists_texts ih
    exact writes_line rfl hyields (spelled_call hname hall)
  | @binary op left right _ _ ihleft ihright =>
    obtain ⟨leftText, hleft, hls⟩ := ihleft
    obtain ⟨rightText, hright, hms⟩ := ihright
    exact writes_line rfl (.cons hleft (.cons hright .nil)) (spelled_binary hls hms op)

/-! ## Writing on lines of its own -/

/-- A body, at a given indent: it is written as indented lines of its lexemes. -/
def WritesLines (e : Expr) (count : Int) : Prop :=
  ∃ lines, lines ≠ [] ∧ Grammar.Many Indented e.bodyLexemes lines ∧
    Dialect.derw.render .ownLines e count = .ok (Text.unlines lines) count

theorem writesLines_single {e : Expr} {text : String} {count : Int} (hcount : 0 < count)
    (hspelled : Spelled text e.bodyLexemes)
    (hrender : Dialect.derw.render .ownLines e count = .ok (indentText count ++ text) count) :
    WritesLines e count := by
  refine ⟨[indentText count ++ text], List.cons_ne_nil _ _, ?_, ?_⟩
  · rw [← List.append_nil e.bodyLexemes]
    exact .cons ⟨count, text, hcount, rfl, hspelled⟩ .nil
  · rw [hrender, Text.unlines, String.intercalate_singleton]

/-- Most expressions stand on a line of their own as they stand inside a line. -/
theorem writesLines_inline {e : Expr} (h : e.Proper) (hlexemes : e.bodyLexemes = e.lexemes)
    (hplan : Dialect.derw.plan .ownLines e =
      Dialect.derw.placed .ownLines (Dialect.derw.plan .inline e)) {count : Int}
    (hcount : 0 < count) : WritesLines e count := by
  obtain ⟨text, hyield, hspelled⟩ := render_spelled h
  rw [← hlexemes] at hspelled
  exact writesLines_single hcount hspelled (Dialect.render_statement hplan (hyield count))

theorem writesLines_lambda {params : List String} {body : Expr} (hne : params ≠ [])
    (hparams : ∀ p ∈ params, isPlainName p) (hbody : body.Proper) {count : Int}
    (hcount : 0 < count) : WritesLines (.lambda params body) count := by
  obtain ⟨text, hyield, hls⟩ := render_spelled hbody
  refine writesLines_single hcount (spelled_lambda hne hparams hls) ?_
  exact Dialect.render_ok rfl (.cons (hyield count) .nil) .nil rfl

theorem writesLines_cond {test yes no : Expr} (htest : Writes test)
    (hyes : ∀ count : Int, 0 < count → WritesLines yes count)
    (hno : ∀ count : Int, 0 < count → WritesLines no count) {count : Int} (hcount : 0 < count) :
    WritesLines (.cond test yes no) count := by
  obtain ⟨testText, htest, hls⟩ := htest
  obtain ⟨yesLines, hyesNe, hms, hyes⟩ := hyes (count + 1) (by omega)
  obtain ⟨noLines, hnoNe, hns, hno⟩ := hno (count + 1) (by omega)
  have hif := ((spelled_keyword .ifWord).spaced hls).spaced (spelled_keyword .thenWord)
  refine ⟨(indentText count ++ ("if" ++ " " ++ testText ++ " " ++ "then")) ::
    (yesLines ++ (indentText count ++ "else") :: noLines), List.cons_ne_nil _ _, ?_, ?_⟩
  · have hlexemes : (Expr.cond test yes no).bodyLexemes =
        [.keyword .ifWord] ++ test.lexemes ++ [.keyword .thenWord] ++
          (yes.bodyLexemes ++ ([.keyword .elseWord] ++ no.bodyLexemes)) := by
      simp [bodyLexemes, condLexemes]
    rw [hlexemes]
    exact .cons ⟨count, _, hcount, rfl, hif⟩
      (hms.append (.cons ⟨count, "else", hcount, rfl, spelled_keyword .elseWord⟩ hns))
  · rw [unlines_cons (by simp), unlines_append hyesNe (List.cons_ne_nil _ _), unlines_cons hnoNe]
    have htext : ∀ indent yes no : String,
        indent ++ "if " ++ testText ++ " then\n" ++ yes ++ "" ++ "\n" ++ indent ++ "else\n" ++ no =
          indent ++ ("if" ++ " " ++ testText ++ " " ++ "then") ++ "\n" ++
            (yes ++ "\n" ++ (indent ++ "else" ++ "\n" ++ no)) := by
      intro indent yes no
      apply String.toList_injective
      simp
    rw [← htext]
    exact Dialect.render_ok rfl (.cons (htest count) .nil) (.cons hyes (.cons hno .nil)) rfl

/-- As a body, a proper expression is written as indented lines of its lexemes. -/
theorem render_lines {e : Expr} (h : e.Proper) {count : Int} (hcount : 0 < count) :
    WritesLines e count := by
  induction h generalizing count with
  | cond htest _ _ _ ihyes ihno =>
    exact writesLines_cond (render_spelled htest) (fun _ => ihyes) (fun _ => ihno) hcount
  | lambda hne hparams hbody _ => exact writesLines_lambda hne hparams hbody hcount
  | name hname hlower => exact writesLines_inline (.name hname hlower) rfl rfl hcount
  | number hdigits => exact writesLines_inline (.number hdigits) rfl rfl hcount
  | negative hdigits => exact writesLines_inline (.negative hdigits) rfl rfl hcount
  | str hbody => exact writesLines_inline (.str hbody) rfl rfl hcount
  | list hitems _ => exact writesLines_inline (.list hitems) rfl rfl hcount
  | record hnames hfields _ => exact writesLines_inline (.record hnames hfields) rfl rfl hcount
  | construct htag hupper hnames hfields _ =>
    exact writesLines_inline (.construct htag hupper hnames hfields) rfl rfl hcount
  | call hname hlower hne hargs _ =>
    exact writesLines_inline (.call hname hlower hne hargs) rfl rfl hcount
  | binary hleft hright _ _ => exact writesLines_inline (.binary hleft hright) rfl rfl hcount

end Polyglot
