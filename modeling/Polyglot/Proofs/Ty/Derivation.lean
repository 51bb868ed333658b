import Polyglot.Proofs.Reading
import Polyglot.Ty.Grammar

/-!
# Derivations of types

`DerivesType rule ts ty` says that the rule of the type grammar derives the tokens `ts` with the
type `ty`. Unlike expressions, types look at places: an argument does not start a line.

Results:
1. `reads_typeElement`: what the parser of types returns is derived by the grammar.
2. `accepts_typeElement`: tokens with a derivation are read, as long as no argument follows them.
-/

namespace Polyglot.Grammar

open Polyglot.Parser

/-! ## The grammar -/

inductive TypeRule where
  | element
  | argument
  | paren
deriving DecidableEq, Repr

/-- A phrase that does not start a line. -/
inductive Inline {α : Type} (phrase : List Token → α → Prop) : List Token → α → Prop
  | mk {t : Token} {ts : List Token} {a : α} :
      phrase (t :: ts) a → t.pos.col ≠ 1 → Inline phrase (t :: ts) a

inductive DerivesType : TypeRule → List Token → Ty → Prop
  | paren {opening closing : Token} {ts us : List Token} {first : Ty} {rest : List Ty} :
      opening.lexeme = .symbol .openParen → DerivesType .element ts first →
      Many (After (fun t => t.lexeme = .symbol .arrow) (DerivesType .element)) us rest →
      closing.lexeme = .symbol .closeParen →
      DerivesType .paren (opening :: (ts ++ (us ++ [closing])))
        (if rest.isEmpty then first else .func (first :: rest))
  | element {ts : List Token} {ty : Ty} : DerivesType .paren ts ty → DerivesType .element ts ty
  | applied {name : String} {pos : Position} {ts : List Token} {args : List Ty} :
      Many (Inline (DerivesType .argument)) ts args →
      DerivesType .element (⟨.ident name, pos⟩ :: ts) (applied name args)
  | argument {ts : List Token} {ty : Ty} : DerivesType .paren ts ty → DerivesType .argument ts ty
  | name {name : String} {pos : Position} :
      DerivesType .argument [⟨.ident name, pos⟩]
        (if isUpperName name then .named name [] else .var name)

theorem derivesType_ne_nil {rule : TypeRule} {ts : List Token} {ty : Ty}
    (h : DerivesType rule ts ty) : ts ≠ [] := by
  cases h with
  | element h | argument h =>
    cases h
    exact List.cons_ne_nil _ _
  | _ => exact List.cons_ne_nil _ _

/-- A type starts with a name or a parenthesis. -/
theorem derivesType_starts {rule : TypeRule} {t : Token} {ts : List Token} {ty : Ty}
    (h : DerivesType rule (t :: ts) ty) :
    (isIdent (some t.lexeme) || t.lexeme == .symbol .openParen) = true := by
  cases h with
  | element h | argument h =>
    cases h with
    | paren hopening _ _ _ => simp [hopening]
  | paren hopening _ _ _ => simp [hopening]
  | applied _ => rfl
  | name => rfl

variable {area : Area}

/-! ## Soundness -/

section Reads

variable {n : Nat} {p : Parser Ty}
  (hp : ∀ c : Cursor, c.rest.length < n → p.Reads area c (DerivesType .element))
include hp

theorem reads_parenType {c : Cursor} (hc : c.rest.length ≤ n) :
    (parenTypeWith area p).Reads area c (DerivesType .paren) := by
  refine (reads_expect c _).bind fun ts _ c₁ h₁ hts => ?_
  obtain ⟨opening, rfl, hopening⟩ := hts
  have hlen₁ := h₁.length
  rw [List.length_singleton] at hlen₁
  refine (hp c₁ (by omega)).bind fun us first c₂ h₂ hus => ?_
  have hlen₂ := h₂.length
  refine (reads_manyAfter (k := n) hp (by omega)).bind fun vs rest c₃ _ hvs => ?_
  refine (reads_expect c₃ _).bind fun ws _ _ _ hws => reads_pure ?_
  obtain ⟨closing, rfl, hclosing⟩ := hws
  rw [List.append_nil]
  exact .paren hopening hus hvs hclosing

theorem reads_argumentType {c : Cursor} (hc : c.rest.length ≤ n) :
    (argumentTypeWith area p).Reads area c (DerivesType .argument) := by
  rw [argumentTypeWith, reads_sees]
  split
  · exact (reads_parenType hp hc).mono fun ts ty h => .argument h
  · refine (reads_expectIdent c).bind fun ts found _ _ hts => reads_pure ?_
    subst hts
    exact .name

omit hp in
/-- Behind a token, the test for an argument looks at the column. -/
theorem startsArgument_eq {c : Cursor} (hpast : c.past ≠ []) :
    startsArgument c =
      match c.rest with
      | [] => false
      | t :: _ => (isIdent (some t.lexeme) || t.lexeme == .symbol .openParen) && t.pos.col != 1 := by
  obtain ⟨past, rest, finish⟩ := c
  have hbehind : past.isEmpty = false := by
    simpa using hpast
  cases rest with
  | nil => rfl
  | cons t ts =>
    simp only [startsArgument, Cursor.lexeme?, Cursor.mark, Token.mark, Cursor.atLineStart, hbehind,
      Bool.not_false, Bool.and_true, Option.some_beq_some, bne]

theorem reads_arguments {c : Cursor} (hpast : c.past ≠ []) (hc : c.rest.length < n) :
    (many startsArgument (argumentTypeWith area p)).Reads area c
      (Many (Inline (DerivesType .argument))) := by
  refine reads_many_of_invariant (I := fun c => c.past ≠ []) (k := n) (fun h hi => ?_)
    (fun us a h => ?_) (fun c' hi hc' hgo => ?_) hpast hc
  · rw [h.past]
    exact List.append_ne_nil_of_right_ne_nil _ hi
  · cases h
    exact List.cons_ne_nil _ _
  · refine (reads_argumentType hp (Nat.le_of_lt hc')).mono_of_spans fun us ty after hspan h => ?_
    rw [startsArgument_eq hi, hspan.rest] at hgo
    obtain ⟨t, us, rfl⟩ := List.exists_cons_of_ne_nil (derivesType_ne_nil h)
    simp only [List.cons_append, Bool.and_eq_true, bne_iff_ne] at hgo
    exact .mk h hgo.2

theorem reads_typeElementWith {c : Cursor} (hc : c.rest.length ≤ n) :
    (typeElementWith area p).Reads area c (DerivesType .element) := by
  rw [typeElementWith, reads_sees]
  split
  · exact (reads_parenType hp hc).mono fun ts ty h => .element h
  · refine (reads_expectIdent c).bind fun ts found c₁ h₁ hts => ?_
    subst hts
    have hlen₁ := h₁.length
    rw [List.length_singleton] at hlen₁
    have hbehind : c₁.past ≠ [] := by
      rw [h₁.past]
      exact List.cons_ne_nil _ _
    refine (reads_arguments hp hbehind (by omega)).bind fun us args _ _ hus => reads_pure ?_
    rw [List.append_nil]
    exact .applied hus

end Reads

/-- What the parser of types returns is derived by the grammar. -/
theorem reads_typeElement (c : Cursor) :
    (typeElement area).Reads area c (DerivesType .element) := by
  refine reads_fix (k := c.rest.length + 1) (fun n p _ hp c hc => ?_) (Nat.lt_succ_self _)
  exact reads_typeElementWith hp (Nat.le_of_eq hc)

/-! ## Completeness -/

/-- What ends a type: no token, or one that is no argument of it. -/
def Ends (rest : List Token) : Prop :=
  ∀ past finish, past ≠ [] → startsArgument ⟨past, rest, finish⟩ = false

theorem ends_of_lexeme {t : Token} {ts : List Token} (hident : isIdent (some t.lexeme) = false)
    (hparen : t.lexeme ≠ .symbol .openParen) : Ends (t :: ts) := by
  intro past finish hpast
  rw [startsArgument_eq hpast]
  simp [hident, hparen]

theorem ends_of_col {t : Token} {ts : List Token} (hcol : t.pos.col = 1) : Ends (t :: ts) := by
  intro past finish hpast
  rw [startsArgument_eq hpast]
  simp [hcol]

theorem ends_of_symbol {rest : List Token} (sign : Symbol)
    (h : rest.head?.map Token.lexeme = some (.symbol sign)) (hparen : sign ≠ .openParen) :
    Ends rest := by
  cases rest with
  | nil => cases h
  | cons t ts =>
    have ht : t.lexeme = .symbol sign := Option.some.inj h
    exact ends_of_lexeme (by rw [ht]; rfl) (by rw [ht]; simpa using hparen)

section Accepts

variable {n : Nat} {p : Parser Ty}
  (hp : ∀ {past ts rest : List Token} {ty : Ty}, DerivesType .element ts ty → ts.length < n →
    Ends rest → p.Accepts past ts ty rest)
include hp

theorem accepts_parenType {past ts rest : List Token} {ty : Ty} (h : DerivesType .paren ts ty)
    (hlen : ts.length ≤ n) : (parenTypeWith area p).Accepts past ts ty rest := by
  cases h with
  | @paren opening closing ts us first types hopening hfirst hmany hclosing =>
    simp only [List.length_cons, List.length_append, List.length_nil] at hlen
    refine accepts_expect hopening ((hp hfirst (by omega) ?_).bind ?_)
    · cases hmany with
      | nil => exact ends_of_symbol .closeParen (by simp [hclosing]) (by decide)
      | cons hafter _ =>
        cases hafter with
        | mk harrow _ => exact ends_of_symbol .arrow (by simp [harrow]) (by decide)
    · have hmany : Many (After (fun t => t.lexeme = .symbol .arrow)
          fun vs ty => DerivesType .element vs ty ∧ vs.length < n) us types := by
        refine hmany.mono fun vs ty hafter hvs => ?_
        cases hafter with
        | mk harrow hty =>
          rw [List.length_cons] at hvs
          exact .mk harrow ⟨hty, by omega⟩
      refine (accepts_manyAfter ?_ (fun past vs ty ws hty hnext => ?_) hmany (by simp)).bind
        (accepts_expect hclosing (accepts_pure _))
      · simp [hclosing]
      · refine hp hty.1 hty.2 ?_
        rcases hnext with rfl | harrow
        · exact ends_of_symbol .closeParen (by simp [hclosing]) (by decide)
        · exact ends_of_symbol .arrow harrow (by decide)

theorem accepts_argumentType {past ts rest : List Token} {ty : Ty}
    (h : DerivesType .argument ts ty) (hlen : ts.length ≤ n) :
    (argumentTypeWith area p).Accepts past ts ty rest := by
  refine accepts_sees ?_
  cases h with
  | argument h =>
    have hopen : (ts ++ rest).head?.map Token.lexeme = some (.symbol .openParen) := by
      cases h with
      | paren hopening _ _ _ => simp [hopening]
    rw [hopen]
    exact accepts_parenType hp h hlen
  | @name name pos =>
    exact accepts_expectIdent name pos (accepts_pure _)

theorem accepts_typeElementWith {past ts rest : List Token} {ty : Ty}
    (h : DerivesType .element ts ty) (hlen : ts.length ≤ n) (hrest : Ends rest) :
    (typeElementWith area p).Accepts past ts ty rest := by
  refine accepts_sees ?_
  cases h with
  | element h =>
    have hopen : (ts ++ rest).head?.map Token.lexeme = some (.symbol .openParen) := by
      cases h with
      | paren hopening _ _ _ => simp [hopening]
    rw [hopen]
    exact accepts_parenType hp h hlen
  | @applied name pos ts args hmany =>
    rw [List.length_cons] at hlen
    have hmany : Many (fun us ty => Inline (DerivesType .argument) us ty ∧ us.length ≤ n) ts args :=
      hmany.mono fun us ty h hus => ⟨h, by omega⟩
    refine accepts_expectIdent name pos
      ((accepts_many (fun past finish hpast => hrest past finish hpast)
        (fun past us ty vs types hpast hus _ => ?_) hmany (List.cons_ne_nil _ _)).map _)
    obtain ⟨hinline, hlength⟩ := hus
    cases hinline with
    | @mk t us ty h hcol =>
      refine ⟨List.cons_ne_nil _ _, fun finish => ?_,
        accepts_argumentType hp h hlength⟩
      rw [startsArgument_eq hpast]
      have hstart := derivesType_starts h
      simp only [List.cons_append, hstart, Bool.true_and, bne_iff_ne]
      exact hcol

end Accepts

/-- Tokens with a derivation are read, as long as no argument follows them. -/
theorem accepts_typeElement {past ts rest : List Token} {ty : Ty} (h : DerivesType .element ts ty)
    (hrest : Ends rest) : (typeElement area).Accepts past ts ty rest := by
  refine accepts_fix fun depth => ?_
  induction depth generalizing past ts ty rest with
  | zero => intro hdepth; omega
  | succ depth ih =>
    intro hdepth
    exact accepts_typeElementWith (n := depth) (fun h hlen hrest => ih h hrest hlen) h
      (Nat.le_of_lt_succ hdepth) hrest

end Polyglot.Grammar
