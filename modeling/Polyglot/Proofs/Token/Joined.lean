import Mathlib
import Polyglot.Dialect.Types
import Polyglot.Proofs.Token.Lines

/-!
# Joining spelled texts

Printers put texts together with commas, arrows, blanks and brackets. Each lemma here says that a
way of joining texts that spell lexemes spells the lexemes joined in the same way.
-/

namespace Polyglot

/-- A name that can be written: a word that is no keyword. -/
def isPlainName (name : String) : Prop :=
  (Lexeme.ident name).valid = true

namespace Grammar

/-- The lexemes of a list are valid. -/
def Valid (ls : List Lexeme) : Prop :=
  ∀ l ∈ ls, l.valid = true

theorem valid_append {ls ms : List Lexeme} : Valid (ls ++ ms) ↔ Valid ls ∧ Valid ms := by
  simp only [Valid, List.mem_append, or_imp, forall_and]

theorem valid_cons {l : Lexeme} {ls : List Lexeme} :
    Valid (l :: ls) ↔ l.valid = true ∧ Valid ls := by
  simp only [Valid, List.mem_cons, forall_eq_or_imp]

theorem Valid.of_part {ls ms : List Lexeme} (h : Valid ms) (hpart : ls <:+: ms) : Valid ls :=
  fun l hl => h l (hpart.subset hl)

theorem valid_of_scan {text : String} {line : Int} {found : Scan}
    (h : scan text line = .ok found) : Valid (found.tokens.map Token.lexeme) := by
  intro l hl
  obtain ⟨t, ht, rfl⟩ := List.mem_map.mp hl
  exact scan_valid h t ht

end Grammar

/-! ## Brackets -/

/-- Lexemes in parentheses. -/
def inParens (ls : List Lexeme) : List Lexeme :=
  .symbol .openParen :: (ls ++ [.symbol .closeParen])

def parensIf (condition : Bool) (ls : List Lexeme) : List Lexeme :=
  if condition then inParens ls else ls

/-- Parts between brackets, with commas between them. -/
def inBrackets (opening closing : Symbol) (parts : List (List Lexeme)) : List Lexeme :=
  .symbol opening :: ([.symbol .comma].intercalate parts ++ [.symbol closing])

/-! ## Spelling the parts -/

theorem spelled_symbol (sign : Symbol) : Spelled sign.spelling [.symbol sign] :=
  .lexeme (l := .symbol sign) rfl

theorem spelled_ident {name : String} (h : isPlainName name) : Spelled name [.ident name] :=
  .lexeme (l := .ident name) h

theorem spelled_keyword (word : Keyword) : Spelled word.spelling [.keyword word] :=
  .lexeme (l := .keyword word) rfl

/-- Texts joined by a glue spell the lexemes of the parts joined by the glue's. -/
theorem spelled_intercalate {glue : String} {between : List Lexeme}
    (hglue : ∀ {text text' : String} {ls ms : List Lexeme}, Spelled text ls → Spelled text' ms →
      Spelled (text ++ glue ++ text') (ls ++ between ++ ms))
    {texts : List String} {parts : List (List Lexeme)} (h : List.Forall₂ Spelled texts parts)
    (hne : texts ≠ []) : Spelled (glue.intercalate texts) (between.intercalate parts) := by
  induction h with
  | nil => exact absurd rfl hne
  | @cons text part texts parts hfirst hrest ih =>
    cases hrest with
    | nil =>
      rw [String.intercalate_singleton, List.intercalate_singleton]
      exact hfirst
    | cons hsecond hmore =>
      rw [String.intercalate_cons_cons, List.intercalate_cons_cons]
      exact hglue hfirst (ih (List.cons_ne_nil _ _))

theorem spelled_comma {text text' : String} {ls ms : List Lexeme} (h : Spelled text ls)
    (h' : Spelled text' ms) : Spelled (text ++ ", " ++ text') (ls ++ [.symbol .comma] ++ ms) := by
  have hcomma : text ++ ", " = text ++ Symbol.comma.spelling ++ " " := by
    rw [String.append_assoc]
    rfl
  rw [hcomma]
  exact .spaced (.closed (.inr (.inl rfl)) h) h'

theorem spelled_space {text text' : String} {ls ms : List Lexeme} (h : Spelled text ls)
    (h' : Spelled text' ms) : Spelled (text ++ " " ++ text') (ls ++ [] ++ ms) := by
  rw [List.append_nil]
  exact .spaced h h'

theorem spelled_arrow {text text' : String} {ls ms : List Lexeme} (h : Spelled text ls)
    (h' : Spelled text' ms) : Spelled (text ++ " -> " ++ text') (ls ++ [.symbol .arrow] ++ ms) := by
  have harrow : text ++ " -> " = text ++ " " ++ Symbol.arrow.spelling ++ " " := by
    rw [String.append_assoc, String.append_assoc]
    rfl
  rw [harrow]
  exact .spaced (.spaced h (spelled_symbol .arrow)) h'

theorem spelled_parens {text : String} {ls : List Lexeme} (h : Spelled text ls) :
    Spelled ("(" ++ text ++ ")") (inParens ls) :=
  .closed (.inl rfl) (.opened (.inl rfl) h)

theorem spelled_parenthesized {text : String} {ls : List Lexeme} (h : Spelled text ls)
    (condition : Bool) : Spelled (parenthesized condition text) (parensIf condition ls) := by
  cases condition with
  | false => exact h
  | true => exact spelled_parens h

/-- A name, a colon and what it labels. -/
theorem spelled_labelled {name text : String} {ls : List Lexeme} (hname : isPlainName name)
    (h : Spelled text ls) : Spelled (name ++ ": " ++ text) (.ident name :: .symbol .colon :: ls) := by
  have hcolon : name ++ ": " = name ++ Symbol.colon.spelling ++ " " := by
    rw [String.append_assoc]
    rfl
  rw [hcolon]
  exact .spaced (.closed (.inr (.inr rfl)) (spelled_ident hname)) h

theorem spelled_names {names : List String} (hne : names ≠ [])
    (h : ∀ name ∈ names, isPlainName name) :
    Spelled (" ".intercalate names) (names.map Lexeme.ident) := by
  have hparts : List.Forall₂ Spelled names (names.map fun name => [Lexeme.ident name]) := by
    rw [List.forall₂_map_right_iff, List.forall₂_same]
    exact fun name hname => spelled_ident (h name hname)
  have hall := spelled_intercalate spelled_space hparts hne
  rw [List.intercalate_nil_left, ← List.flatMap_def, ← List.map_eq_flatMap] at hall
  exact hall

theorem spelled_brackets (opening closing : Symbol) {texts : List String}
    {parts : List (List Lexeme)} (h : List.Forall₂ Spelled texts parts) (hne : texts ≠ []) :
    Spelled (opening.spelling ++ " " ++ ", ".intercalate texts ++ " " ++ closing.spelling)
      (inBrackets opening closing parts) := by
  have hinner := spelled_intercalate spelled_comma h hne
  exact .spaced (.spaced (spelled_symbol opening) hinner) (spelled_symbol closing)

/-! ## Phrases one after the other -/

namespace Grammar

variable {α : Type} {P : List Lexeme → α → Prop} {f : α → List Lexeme} {items : List α}

theorem many_of_forall (h : ∀ a ∈ items, P (f a) a) : Many P (items.map f).flatten items := by
  induction items with
  | nil => exact .nil
  | cons a items ih =>
    exact .cons (h a List.mem_cons_self) (ih fun b hb => h b (List.mem_cons_of_mem a hb))

theorem manyAfter_of_forall (h : ∀ a ∈ items, P (f a) a) (separator : Lexeme) :
    Many (After (· = separator) P) (items.flatMap fun a => separator :: f a) items := by
  induction items with
  | nil => exact .nil
  | cons a items ih =>
    exact .cons (.mk rfl (h a List.mem_cons_self)) (ih fun b hb => h b (List.mem_cons_of_mem a hb))

end Grammar

end Polyglot
