import Polyglot.Expr.Grammar
import Polyglot.Proofs.Reading

/-!
# Derivations of expressions

`Derives rule ls e` says that the rule of the expression grammar derives the lexemes `ls` with the
tree `e`. There is one constructor for each alternative of a rule; places play no part.

Results:
1. `reads_expr`: whatever the parser of expressions returns is derived by the grammar, and where it
   fails, it fails as a malformed expression.
2. `derives_ne_nil`: no rule derives the empty list, so every loop of the grammar makes progress.
-/

namespace Polyglot

/-- The sign of an operation as a symbol. -/
def BinaryOp.symbol : BinaryOp → Symbol
  | .add => .plus
  | .sub => .minus
  | .mul => .star
  | .div => .slash
  | .and => .andAnd
  | .or => .barBar
  | .eq => .equalEqual
  | .ne => .notEqual
  | .lt => .less
  | .le => .lessEq
  | .gt => .greater
  | .ge => .greaterEq

theorem BinaryOp.spelling_symbol (op : BinaryOp) : op.symbol.spelling = op.sign := by
  cases op <;> rfl

namespace Grammar

/-! ## The grammar -/

/-- The rules that derive an expression. A primary is an operand that needs no name before it. -/
inductive Rule where
  | expr
  | or
  | and
  | compare
  | sum
  | product
  | application
  | atom
  | primary
deriving DecidableEq, Repr

/-- A field of a record: a name, a colon and its content. -/
inductive Labelled (phrase : List Lexeme → Expr → Prop) : List Lexeme → String × Expr → Prop
  | mk {name : String} {ls : List Lexeme} {e : Expr} :
      phrase ls e → Labelled phrase (.ident name :: .symbol .colon :: ls) (name, e)

/-- Phrases between brackets: none, or one and then others behind commas. -/
inductive Bracketed {α : Type} (opening closing : Symbol) (phrase : List Lexeme → α → Prop) :
    List Lexeme → List α → Prop
  | nil : Bracketed opening closing phrase [.symbol opening, .symbol closing] []
  | cons {ls ms : List Lexeme} {a : α} {as : List α} :
      phrase ls a → Many (After (· = .symbol .comma) phrase) ms as →
      Bracketed opening closing phrase
        (.symbol opening :: (ls ++ (ms ++ [.symbol closing]))) (a :: as)

inductive Derives : Rule → List Lexeme → Expr → Prop
  | cond {ls ms ns : List Lexeme} {test yes no : Expr} :
      Derives .expr ls test → Derives .expr ms yes → Derives .expr ns no →
      Derives .expr (.keyword .ifWord :: (ls ++ .keyword .thenWord :: (ms ++
        .keyword .elseWord :: ns))) (.cond test yes no)
  | lambda {first : String} {others : List String} {ls : List Lexeme} {body : Expr} :
      Derives .expr ls body →
      Derives .expr (.symbol .backslash :: .ident first :: (others.map Lexeme.ident ++
        .symbol .arrow :: ls)) (.lambda (first :: others) body)
  | or {ls : List Lexeme} {e : Expr} : Derives .or ls e → Derives .expr ls e
  | orOne {ls : List Lexeme} {e : Expr} : Derives .and ls e → Derives .or ls e
  | orMore {ls ms : List Lexeme} {left right : Expr} :
      Derives .and ls left → Derives .or ms right →
      Derives .or (ls ++ .symbol .barBar :: ms) (.binary .or left right)
  | andOne {ls : List Lexeme} {e : Expr} : Derives .compare ls e → Derives .and ls e
  | andMore {ls ms : List Lexeme} {left right : Expr} :
      Derives .compare ls left → Derives .and ms right →
      Derives .and (ls ++ .symbol .andAnd :: ms) (.binary .and left right)
  | compareOne {ls : List Lexeme} {e : Expr} : Derives .sum ls e → Derives .compare ls e
  /-- Comparisons do not chain: both sides are sums. -/
  | compareTwo {op : BinaryOp} {ls ms : List Lexeme} {left right : Expr} :
      op ∈ [.eq, .ne, .lt, .le, .gt, .ge] → Derives .sum ls left → Derives .sum ms right →
      Derives .compare (ls ++ .symbol op.symbol :: ms) (.binary op left right)
  | sumOne {ls : List Lexeme} {e : Expr} : Derives .product ls e → Derives .sum ls e
  | sumMore {op : BinaryOp} {ls ms : List Lexeme} {left right : Expr} :
      op ∈ [.add, .sub] → Derives .product ls left → Derives .sum ms right →
      Derives .sum (ls ++ .symbol op.symbol :: ms) (.binary op left right)
  | productOne {ls : List Lexeme} {e : Expr} : Derives .application ls e → Derives .product ls e
  | productMore {op : BinaryOp} {ls ms : List Lexeme} {left right : Expr} :
      op ∈ [.mul, .div] → Derives .application ls left → Derives .product ms right →
      Derives .product (ls ++ .symbol op.symbol :: ms) (.binary op left right)
  | construct {tag : String} : isUpperName tag = true →
      Derives .application [.ident tag] (.construct tag none [])
  | constructWith {tag : String} {ls : List Lexeme} {fields : List (String × Expr)} :
      isUpperName tag = true →
      Bracketed .openBrace .closeBrace (Labelled (Derives .expr)) ls fields →
      Derives .application (.ident tag :: ls) (.construct tag none fields)
  | value {name : String} : isUpperName name = false →
      Derives .application [.ident name] (.value name)
  | call {name : String} {ls ms : List Lexeme} {arg : Expr} {args : List Expr} :
      isUpperName name = false → Derives .atom ls arg → Many (Derives .atom) ms args →
      Derives .application (.ident name :: (ls ++ ms)) (.call name (arg :: args))
  | negative {digits : String} :
      Derives .application [.symbol .minus, .number digits] (.value ("-" ++ digits))
  | operand {ls : List Lexeme} {e : Expr} : Derives .primary ls e → Derives .application ls e
  | name {name : String} : Derives .atom [.ident name] (nameExpr name)
  | argument {ls : List Lexeme} {e : Expr} : Derives .primary ls e → Derives .atom ls e
  | number {digits : String} : Derives .primary [.number digits] (.value digits)
  | string {body : String} : Derives .primary [.string body] (.str body)
  | list {ls : List Lexeme} {items : List Expr} :
      Bracketed .openBracket .closeBracket (Derives .expr) ls items →
      Derives .primary ls (.list items)
  | record {ls : List Lexeme} {fields : List (String × Expr)} :
      Bracketed .openBrace .closeBrace (Labelled (Derives .expr)) ls fields →
      Derives .primary ls (.record none fields)
  | paren {ls : List Lexeme} {e : Expr} : Derives .expr ls e →
      Derives .primary (.symbol .openParen :: (ls ++ [.symbol .closeParen])) e

/-- Every phrase has a first lexeme. -/
theorem derives_ne_nil {rule : Rule} {ls : List Lexeme} {e : Expr} :
    Derives rule ls e → ls ≠ []
  | .or h | .orOne h | .andOne h | .compareOne h | .sumOne h | .productOne h => derives_ne_nil h
  | .operand h | .argument h => derives_ne_nil h
  | .list h | .record h => by cases h <;> simp
  | .cond .. | .lambda .. | .orMore .. | .andMore .. | .compareTwo .. | .sumMore .. => by simp
  | .productMore .. | .construct .. | .constructWith .. | .value .. | .call .. => by simp
  | .negative | .name | .number | .string | .paren .. => by simp

/-- Every item is the value of a phrase between the brackets. -/
theorem Bracketed.exists_of_mem {α : Type} {opening closing : Symbol}
    {phrase : List Lexeme → α → Prop} {ls : List Lexeme} {as : List α}
    (h : Bracketed opening closing phrase ls as) {a : α} (ha : a ∈ as) :
    ∃ us, us <:+: ls ∧ us.length < ls.length ∧ phrase us a := by
  cases h with
  | nil => cases ha
  | @cons us vs b bs hfirst hrest =>
    rcases List.mem_cons.mp ha with rfl | ha
    · refine ⟨us, ⟨[.symbol opening], vs ++ [.symbol closing], by simp⟩, ?_, hfirst⟩
      grind
    · obtain ⟨ws, hpart, hafter⟩ := hrest.exists_of_mem ha
      cases hafter with
      | @mk s xs _ _ hphrase =>
        have hxs : xs <:+: vs := (List.suffix_cons s xs).isInfix.trans hpart
        have hvs : vs <:+: .symbol opening :: (us ++ (vs ++ [.symbol closing])) :=
          ⟨.symbol opening :: us, [.symbol closing], by simp⟩
        have hlength := hxs.length_le
        refine ⟨xs, hxs.trans hvs, ?_, hphrase⟩
        grind

/-- How far a rule is from the lexemes. -/
def Rule.rank : Rule → Nat
  | .primary => 0
  | .atom | .application => 1
  | .product => 2
  | .sum => 3
  | .compare => 4
  | .and => 5
  | .or => 6
  | .expr => 7

/-- One phrase is inside another: it is shorter, or as long and derived by a rule closer to the
lexemes. -/
def Inside (rule : Rule) (ls : List Lexeme) (rule' : Rule) (ls' : List Lexeme) : Prop :=
  ls.length < ls'.length ∨ ls = ls' ∧ rule.rank < rule'.rank

/-- Derivations by induction on the phrases inside. -/
theorem derives_induction {motive : Rule → List Lexeme → Expr → Prop}
    (step : ∀ {rule ls e}, Derives rule ls e →
      (∀ {rule' ls' e'}, Derives rule' ls' e' → Inside rule' ls' rule ls → motive rule' ls' e') →
      motive rule ls e)
    {rule : Rule} {ls : List Lexeme} {e : Expr} (h : Derives rule ls e) : motive rule ls e := by
  -- A phrase has fewer than eight ranks, so length and rank make one number.
  induction hn : 8 * ls.length + rule.rank using Nat.strongRecOn generalizing rule ls e with
  | ind n ih =>
    refine step h fun {rule' ls' e'} h' hinside => ih _ ?_ h' rfl
    have hrank : rule'.rank < 8 := by
      cases rule' <;> decide
    rcases hinside with hlt | ⟨rfl, hlt⟩ <;> omega

/-! ## Operators -/

/-- `op?` recognises the signs of the operations `ops` and nothing else. -/
structure Recognises (op? : Option Lexeme → Option BinaryOp) (ops : List BinaryOp) : Prop where
  atEnd : op? none = none
  atLexeme (l : Lexeme) (op : BinaryOp) :
    op? (some l) = some op ↔ op ∈ ops ∧ l = .symbol op.symbol

/-- It is enough that `op?` finds each of the operations, and that what it finds is the sign of one
of them. -/
theorem recognises_of_found {op? : Option Lexeme → Option BinaryOp} {ops : List BinaryOp}
    (hend : op? none = none) (hsigns : ∀ op ∈ ops, op? (some (.symbol op.symbol)) = some op)
    (hfound : ∀ {l op}, op? (some l) = some op → op ∈ ops ∧ l = .symbol op.symbol) :
    Recognises op? ops := by
  refine ⟨hend, fun l op => ⟨hfound, ?_⟩⟩
  rintro ⟨hop, rfl⟩
  exact hsigns op hop

theorem recognises_product : Recognises productOp? [.mul, .div] := by
  refine recognises_of_found rfl (by decide) fun h => ?_
  unfold productOp? at h
  split at h <;> cases h
  all_goals exact ⟨by decide, by simp_all [BinaryOp.symbol]⟩

theorem recognises_sum : Recognises sumOp? [.add, .sub] := by
  refine recognises_of_found rfl (by decide) fun h => ?_
  unfold sumOp? at h
  split at h <;> cases h
  all_goals exact ⟨by decide, by simp_all [BinaryOp.symbol]⟩

theorem recognises_compare : Recognises compareOp? [.eq, .ne, .lt, .le, .gt, .ge] := by
  refine recognises_of_found rfl (by decide) fun h => ?_
  unfold compareOp? at h
  split at h <;> cases h
  all_goals exact ⟨by decide, by simp_all [BinaryOp.symbol]⟩

theorem recognises_and : Recognises andOp? [.and] := by
  refine recognises_of_found rfl (by decide) fun h => ?_
  unfold andOp? at h
  split at h <;> cases h
  exact ⟨by decide, by simp_all [BinaryOp.symbol]⟩

theorem recognises_or : Recognises orOp? [.or] := by
  refine recognises_of_found rfl (by decide) fun h => ?_
  unfold orOp? at h
  split at h <;> cases h
  exact ⟨by decide, by simp_all [BinaryOp.symbol]⟩

/-! ## Soundness -/

/-- The tokens of a phrase, wherever they stand. -/
def Phrase (rule : Rule) (ts : List Token) (e : Expr) : Prop :=
  Derives rule (ts.map Token.lexeme) e

open Polyglot.Parser

theorem reads_lexeme {c : Cursor} {l : Lexeme} (hl : c.lexeme? = some l) {rule : Rule} {e : Expr}
    (h : Derives rule [l] e) :
    (do advance; return e : Parser Expr).Reads .expression c (Phrase rule) := by
  refine (reads_advance hl).bind fun ts _ _ _ hts => reads_pure ?_
  obtain ⟨t, rfl, rfl⟩ := hts
  exact h

/-- An operand is read, and after an operator another one. -/
theorem reads_operation {op? : Option Lexeme → Option BinaryOp} {ops : List BinaryOp}
    (hop : Recognises op? ops) {left right : Parser Expr} {below above whole : Rule} {c : Cursor}
    (hleft : left.Reads .expression c (Phrase below))
    (hright : ∀ c', c'.rest.length < c.rest.length → right.Reads .expression c' (Phrase above))
    (hone : ∀ {ls e}, Derives below ls e → Derives whole ls e)
    (hmore : ∀ {op ls ms a b}, op ∈ ops → Derives below ls a → Derives above ms b →
      Derives whole (ls ++ .symbol op.symbol :: ms) (.binary op a b)) :
    (operation op? left right).Reads .expression c (Phrase whole) := by
  refine hleft.bind fun ts a c₁ hspan hts => ?_
  rw [reads_peek]
  split
  · next op hsee =>
    cases hl : c₁.lexeme? with
    | none => rw [hl, hop.atEnd] at hsee; cases hsee
    | some l =>
      rw [hl] at hsee
      obtain ⟨hmem, rfl⟩ := (hop.atLexeme l op).mp hsee
      refine (reads_advance hl).bind fun us _ c₂ hspan₂ hus => ?_
      obtain ⟨t, rfl, ht⟩ := hus
      have hlen := hspan.length
      have hlen₂ := hspan₂.length
      rw [List.length_singleton] at hlen₂
      refine (hright c₂ (by omega)).bind fun vs b _ _ hvs => reads_pure ?_
      simp only [Phrase, List.append_nil, List.map_append, List.map_cons, List.map_nil, ht]
      exact hmore hmem hts hvs
  · refine reads_pure ?_
    rw [List.append_nil]
    exact hone hts

theorem reads_chain {op? : Option Lexeme → Option BinaryOp} {ops : List BinaryOp}
    (hop : Recognises op? ops) {operand : Parser Expr} {below whole : Rule} {n : Nat}
    (hoperand : ∀ c, c.rest.length < n → operand.Reads .expression c (Phrase below))
    (hone : ∀ {ls e}, Derives below ls e → Derives whole ls e)
    (hmore : ∀ {op ls ms a b}, op ∈ ops → Derives below ls a → Derives whole ms b →
      Derives whole (ls ++ .symbol op.symbol :: ms) (.binary op a b))
    {c : Cursor} (hc : c.rest.length < n) :
    (chain op? operand).Reads .expression c (Phrase whole) := by
  refine reads_fix (k := n) (fun m p hm hp c hlen => ?_) hc
  exact reads_operation hop (hoperand c (by omega)) (fun c' hc' => hp c' (by omega)) hone hmore

section Layers

-- Each layer of the grammar is read by its parser, provided that the parser of whole expressions
-- reads expressions wherever fewer than `n` tokens are left.
variable {p : Parser Expr} {n : Nat}
  (hp : ∀ c, c.rest.length < n → p.Reads .expression c (Phrase .expr))
include hp

theorem reads_field {c : Cursor} (hc : c.rest.length ≤ n) :
    (fieldWith p).Reads .expression c fun ts field =>
      Labelled (Derives .expr) (ts.map Token.lexeme) field := by
  refine (reads_expectIdent c).bind fun ts found c₁ hspan hts => ?_
  subst hts
  refine (reads_expect _ _).bind fun us _ c₂ hspan₂ hus => ?_
  obtain ⟨t, rfl, ht⟩ := hus
  have hlen := (hspan.trans hspan₂).length
  simp only [List.length_append, List.length_singleton] at hlen
  refine (hp c₂ (by omega)).bind fun vs e _ _ hvs => reads_pure ?_
  simp only [List.append_nil, List.map_append, List.map_cons, List.map_nil, ht]
  exact .mk hvs

omit hp in
theorem bracketed_of_enclosed {α : Type} {opening closing : Symbol}
    {P : List Lexeme → α → Prop} {t : Token} (ht : t.lexeme = .symbol opening) {ts : List Token}
    {as : List α} (h : Enclosed closing (fun us a => P (us.map Token.lexeme) a) ts as) :
    Bracketed opening closing P ((t :: ts).map Token.lexeme) as := by
  cases h with
  | nil hclose =>
    simp only [List.map_cons, List.map_nil, ht, hclose]
    exact .nil
  | cons hP hmany hclose =>
    simp only [List.map_cons, List.map_append, List.map_nil, ht, hclose]
    refine .cons hP (Many.map (hmany.mono fun us a hafter _ => ?_))
    exact After.map (f := Token.lexeme) hafter

theorem reads_record {c : Cursor} (hc : c.rest.length ≤ n + 1) :
    (recordWith p).Reads .expression c fun ts fields =>
      Bracketed .openBrace .closeBrace (Labelled (Derives .expr)) (ts.map Token.lexeme) fields := by
  refine (reads_expect _ _).bind fun ts _ c₁ hspan hts => ?_
  obtain ⟨t, rfl, ht⟩ := hts
  have hlen := hspan.length
  rw [List.length_singleton] at hlen
  refine (reads_enclosed (k := n) (fun c hc => reads_field hp hc) (by omega)).mono
    fun us fields h => ?_
  exact bracketed_of_enclosed ht h

theorem reads_primary {c : Cursor} (hc : c.rest.length ≤ n) (hname : isIdent c.lexeme? = false)
    (hsign : c.lexeme? ≠ some (.symbol .minus)) :
    (atomWith p).Reads .expression c (Phrase .primary) := by
  rw [atomWith, reads_peek]
  split
  · next digits hl => exact reads_lexeme hl .number
  · next body hl => exact reads_lexeme hl .string
  · next name hl => rw [hl] at hname; cases hname
  · next hl => exact absurd hl hsign
  · next hl =>
    refine (reads_advance hl).bind fun ts _ c₁ hspan hts => ?_
    obtain ⟨t, rfl, ht⟩ := hts
    have hlen := hspan.length
    rw [List.length_singleton] at hlen
    refine (hp c₁ (by omega)).bind fun us e _ _ hus => ?_
    refine (reads_expect _ _).bind fun vs _ _ _ hvs => reads_pure ?_
    obtain ⟨t', rfl, ht'⟩ := hvs
    simp only [Phrase, List.append_nil, List.map_append, List.map_cons, List.map_nil, ht, ht']
    exact .paren hus
  · next hl =>
    refine (reads_advance hl).bind fun ts _ c₁ hspan hts => ?_
    obtain ⟨t, rfl, ht⟩ := hts
    have hlen := hspan.length
    rw [List.length_singleton] at hlen
    refine (reads_enclosed (k := n - 1) (fun c hc => hp c (by omega)) (by omega)).bind
      fun us items _ _ hus => reads_pure ?_
    rw [List.append_nil]
    exact .list (bracketed_of_enclosed ht hus)
  · refine (reads_record hp (by omega)).bind fun ts fields _ _ hts => reads_pure ?_
    rw [List.append_nil]
    exact .record hts
  · exact reads_fail _

theorem reads_atom {c : Cursor} (hc : c.rest.length ≤ n) (hstart : startsAtom c = true) :
    (atomWith p).Reads .expression c (Phrase .atom) := by
  cases hname : isIdent c.lexeme? with
  | false =>
    refine (reads_primary hp hc hname fun hl => ?_).mono fun ts e h => .argument h
    simp [startsAtom, hl] at hstart
  | true =>
    cases hl : c.lexeme? with
    | none => rw [hl] at hname; cases hname
    | some l =>
      cases l with
      | ident name =>
        rw [atomWith, reads_peek, hl]
        exact reads_lexeme hl .name
      | _ => rw [hl] at hname; cases hname

omit hp in
theorem reads_negativeNumber {c : Cursor} (hsign : c.lexeme? = some (.symbol .minus)) :
    negativeNumber.Reads .expression c (Phrase .application) := by
  rw [negativeNumber, reads_get]
  split
  · next digits hsecond =>
    obtain ⟨t, rest, hrest, ht⟩ := Cursor.rest_of_lexeme? hsign
    obtain ⟨past, _, finish⟩ := c
    cases hrest
    match rest, hsecond with
    | ⟨.number _, pos⟩ :: us, rfl =>
      refine ⟨[t, ⟨.number digits, pos⟩], ⟨rfl, rfl, rfl⟩, ?_⟩
      simp only [Phrase, List.map_cons, List.map_nil, ht]
      exact .negative
  · exact reads_fail _

/-- Where no name stands, an operand is a primary or a negative number. -/
theorem reads_operand {c : Cursor} (hc : c.rest.length ≤ n) (hname : isIdent c.lexeme? = false) :
    (atomWith p).Reads .expression c (Phrase .application) := by
  by_cases hsign : c.lexeme? = some (.symbol .minus)
  · rw [atomWith, reads_peek, hsign]
    exact reads_negativeNumber hsign
  · exact (reads_primary hp hc hname hsign).mono fun ts e h => .operand h

theorem reads_application {c : Cursor} (hc : c.rest.length ≤ n) :
    (applicationWith p).Reads .expression c (Phrase .application) := by
  rw [applicationWith, reads_peek]
  split
  · next name hl =>
    refine (reads_advance hl).bind fun ts _ c₁ hspan hts => ?_
    obtain ⟨t, rfl, ht⟩ := hts
    have hlen := hspan.length
    rw [List.length_singleton] at hlen
    split
    · next hupper =>
      rw [reads_sees]
      split
      · refine (reads_record hp (by omega)).bind fun us fields _ _ hus => reads_pure ?_
        simp only [Phrase, List.append_nil, List.map_append, List.map_cons, List.map_nil, ht]
        exact .constructWith hupper hus
      · refine reads_pure ?_
        simp only [Phrase, List.append_nil, List.map_cons, List.map_nil, ht]
        exact .construct hupper
    · next hlower =>
      have hlower : isUpperName name = false := by simpa using hlower
      refine (reads_many (k := n) (fun us e h => ?_) (fun c hc hgo => reads_atom hp (by omega) hgo)
        (by omega)).bind fun us args _ _ hus => reads_pure ?_
      · rintro rfl
        exact derives_ne_nil h rfl
      · simp only [Phrase, List.append_nil, List.map_cons, ht, List.singleton_append]
        have hmany : Many (Derives .atom) (us.map Token.lexeme) args := Many.map hus
        generalize us.map Token.lexeme = ls at hmany ⊢
        cases hmany with
        | nil => exact .value hlower
        | cons hfirst hothers => exact .call hlower hfirst hothers
  · next hname =>
    refine reads_operand hp hc ?_
    cases hl : c.lexeme? with
    | none => rfl
    | some l =>
      cases l with
      | ident name => exact absurd hl (hname name)
      | _ => rfl

theorem reads_product {c : Cursor} (hc : c.rest.length ≤ n) :
    (productWith p).Reads .expression c (Phrase .product) :=
  reads_chain recognises_product (n := n + 1) (fun c hc => reads_application hp (by omega))
    .productOne .productMore (by omega)

theorem reads_sum {c : Cursor} (hc : c.rest.length ≤ n) :
    (sumWith p).Reads .expression c (Phrase .sum) :=
  reads_chain recognises_sum (n := n + 1) (fun c hc => reads_product hp (by omega))
    .sumOne .sumMore (by omega)

theorem reads_compare {c : Cursor} (hc : c.rest.length ≤ n) :
    (compareWith p).Reads .expression c (Phrase .compare) :=
  reads_operation recognises_compare (reads_sum hp hc) (fun c' hc' => reads_sum hp (by omega))
    .compareOne .compareTwo

theorem reads_and {c : Cursor} (hc : c.rest.length ≤ n) :
    (andWith p).Reads .expression c (Phrase .and) := by
  refine reads_chain recognises_and (n := n + 1) (fun c hc => reads_compare hp (by omega))
    .andOne (fun hop hleft hright => ?_) (by omega)
  rw [List.mem_singleton.mp hop]
  exact .andMore hleft hright

theorem reads_or {c : Cursor} (hc : c.rest.length ≤ n) :
    (orWith p).Reads .expression c (Phrase .or) := by
  refine reads_chain recognises_or (n := n + 1) (fun c hc => reads_and hp (by omega))
    .orOne (fun hop hleft hright => ?_) (by omega)
  rw [List.mem_singleton.mp hop]
  exact .orMore hleft hright

theorem reads_cond {c : Cursor} (hc : c.rest.length ≤ n) :
    (condWith p).Reads .expression c (Phrase .expr) := by
  refine (reads_expect c _).bind fun ts _ c₁ h₁ hts => ?_
  obtain ⟨t, rfl, ht⟩ := hts
  have hlen₁ := h₁.length
  rw [List.length_singleton] at hlen₁
  refine (hp c₁ (by omega)).bind fun us test c₂ h₂ hus => ?_
  refine (reads_expect c₂ _).bind fun ts' _ c₃ h₃ hts' => ?_
  obtain ⟨t', rfl, ht'⟩ := hts'
  have hlen₃ := (h₂.trans h₃).length
  refine (hp c₃ (by omega)).bind fun vs yes c₄ h₄ hvs => ?_
  refine (reads_expect c₄ _).bind fun ts'' _ c₅ h₅ hts'' => ?_
  obtain ⟨t'', rfl, ht''⟩ := hts''
  have hlen₅ := (h₄.trans h₅).length
  refine (hp c₅ (by omega)).bind fun ws no _ _ hws => reads_pure ?_
  simp only [Phrase, List.append_nil, List.map_append, List.map_cons, List.map_nil, ht, ht', ht'']
  exact .cond hus hvs hws

theorem reads_lambda {c : Cursor} (hc : c.rest.length ≤ n) :
    (lambdaWith p).Reads .expression c (Phrase .expr) := by
  refine (reads_expect c _).bind fun ts _ c₁ h₁ hts => ?_
  obtain ⟨t, rfl, ht⟩ := hts
  have hlen₁ := h₁.length
  rw [List.length_singleton] at hlen₁
  refine (reads_expectIdent c₁).bind fun us first c₂ h₂ hus => ?_
  subst hus
  refine (reads_names c₂).bind fun vs others c₃ h₃ hvs => ?_
  refine (reads_expect c₃ _).bind fun ts' _ c₄ h₄ hts' => ?_
  obtain ⟨t', rfl, ht'⟩ := hts'
  have hlen₄ := ((h₂.trans h₃).trans h₄).length
  refine (hp c₄ (by omega)).bind fun ws body _ _ hws => reads_pure ?_
  simp only [Phrase, List.append_nil, List.map_append, List.map_cons, List.map_nil, ht, ht', hvs]
  exact .lambda hws

theorem reads_exprWith {c : Cursor} (hc : c.rest.length ≤ n) :
    (exprWith p).Reads .expression c (Phrase .expr) := by
  rw [exprWith, reads_peek]
  split
  · exact reads_cond hp hc
  · exact reads_lambda hp hc
  · exact (reads_or hp hc).mono fun ts e h => .or h

end Layers

/-- What the parser of expressions returns is derived by the grammar. Where it fails, it fails as
an expression does. -/
theorem reads_expr (c : Cursor) : expr.Reads .expression c (Phrase .expr) := by
  refine reads_fix (k := c.rest.length + 1) (fun n p _ hp c hc => ?_) (Nat.lt_succ_self _)
  exact reads_exprWith hp (by omega)

end Grammar

end Polyglot
