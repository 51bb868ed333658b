import Polyglot.Block.Reading
import Polyglot.Proofs.Decl.Derivation
import Polyglot.Proofs.Placement

/-!
# Declarations and the places of their tokens

Every rule of the grammar is steady, from the types up to the declarations: only the arguments of a
type and the end of a signature look at places, and these look for the start of a line.
-/

namespace Polyglot.Grammar

open Polyglot.Parser

variable {R : Position → Position → Prop}

/-! ## Types -/

section Types

variable {area : Area} {element : Parser Ty} (helement : element.Steady R)

include helement

theorem steady_parenType : (parenTypeWith area element).Steady R :=
  (steady_expect area _).bind fun _ => helement.bind fun _ =>
    (steady_manyAfter _ helement).bind fun _ => (steady_expect area _).bind fun _ => steady_pure _

theorem steady_argumentType : (argumentTypeWith area element).Steady R := by
  refine (steady_sees _).bind fun _ => steady_ite _ (steady_parenType helement) ?_
  exact steady_ident area fun _ _ _ _ => steady_pure _

theorem steady_typeElementWith : (typeElementWith area element).Steady R := by
  refine (steady_sees _).bind fun _ => steady_ite _ (steady_parenType helement) ?_
  refine steady_ident area fun _ _ _ _ => ?_
  refine (steady_many (fun hc => ?_) (steady_argumentType helement)).bind fun _ => steady_pure _
  rw [startsArgument, startsArgument, hc.lexeme?, hc.atLineStart]

end Types

theorem steady_typeElement (area : Area) : (typeElement area).Steady R :=
  steady_fix fun _ helement => steady_typeElementWith helement

/-! ## Expressions -/

theorem secondNumber?_alike {c c' : Cursor} (h : c.Alike R c') :
    secondNumber? c = secondNumber? c' := by
  obtain ⟨past, rest, finish⟩ := c
  obtain ⟨past', rest', finish'⟩ := c'
  obtain ⟨_, hrest, _⟩ := h
  cases hrest with
  | nil => rfl
  | cons _ hmore =>
    cases hmore with
    | nil => rfl
    | @cons second second' _ _ ht _ =>
      obtain ⟨l, pos⟩ := second
      obtain ⟨l', pos'⟩ := second'
      obtain rfl : l = l' := ht.lexeme
      cases l <;> rfl

theorem steady_negativeNumber : negativeNumber.Steady R := by
  refine couples_get.bind fun c c' hc => ?_
  rw [secondNumber?_alike hc]
  cases secondNumber? c' with
  | none => exact steady_fail _ _
  | some digits => exact steady_advance.bind fun _ => steady_advance.bind fun _ => steady_pure _

section Exprs

variable {expr : Parser Expr} (hexpr : expr.Steady R)

include hexpr

theorem steady_record : (recordWith expr).Steady R := by
  refine (steady_expect _ _).bind fun _ => steady_enclosed _ _ ?_
  refine steady_ident _ fun _ _ _ _ => ?_
  exact (steady_expect _ _).bind fun _ => hexpr.bind fun _ => steady_pure _

theorem steady_atom : (atomWith expr).Steady R := by
  refine steady_peek.bind fun found => ?_
  split
  · exact steady_advance.bind fun _ => steady_pure _
  · exact steady_advance.bind fun _ => steady_pure _
  · exact steady_advance.bind fun _ => steady_pure _
  · exact steady_negativeNumber
  · exact steady_advance.bind fun _ => hexpr.bind fun _ =>
      (steady_expect _ _).bind fun _ => steady_pure _
  · exact steady_advance.bind fun _ => (steady_enclosed _ _ hexpr).bind fun _ => steady_pure _
  · exact (steady_record hexpr).bind fun _ => steady_pure _
  · exact steady_fail _ _

theorem steady_application : (applicationWith expr).Steady R := by
  refine steady_peek.bind fun found => ?_
  split
  · refine steady_advance.bind fun _ => steady_ite _ ?_ ?_
    · refine (steady_sees _).bind fun _ => steady_ite _ ?_ (steady_pure _)
      exact (steady_record hexpr).bind fun _ => steady_pure _
    · refine (steady_many (fun hc => ?_) (steady_atom hexpr)).bind fun _ => steady_pure _
      rw [startsAtom, startsAtom, hc.lexeme?]
  · exact steady_atom hexpr

omit hexpr in
theorem steady_operation {op? : Option Lexeme → Option BinaryOp} {left right : Parser Expr}
    (hleft : left.Steady R) (hright : right.Steady R) : (operation op? left right).Steady R := by
  refine hleft.bind fun _ => steady_peek.bind fun found => ?_
  split
  · exact steady_advance.bind fun _ => hright.bind fun _ => steady_pure _
  · exact steady_pure _

omit hexpr in
theorem steady_chain {op? : Option Lexeme → Option BinaryOp} {operand : Parser Expr}
    (h : operand.Steady R) : (chain op? operand).Steady R :=
  steady_fix fun _ hmore => steady_operation h hmore

theorem steady_or : (orWith expr).Steady R := by
  have hsum : (sumWith expr).Steady R := steady_chain (steady_chain (steady_application hexpr))
  exact steady_chain (steady_chain (steady_operation hsum hsum))

theorem steady_cond : (condWith expr).Steady R :=
  (steady_expect _ _).bind fun _ => hexpr.bind fun _ => (steady_expect _ _).bind fun _ =>
    hexpr.bind fun _ => (steady_expect _ _).bind fun _ => hexpr.bind fun _ => steady_pure _

theorem steady_lambda : (lambdaWith expr).Steady R := by
  refine (steady_expect _ _).bind fun _ => steady_ident _ fun _ _ _ _ => ?_
  exact (steady_names _).bind fun _ => (steady_expect _ _).bind fun _ =>
    hexpr.bind fun _ => steady_pure _

theorem steady_exprWith : (exprWith expr).Steady R := by
  refine steady_peek.bind fun found => ?_
  split
  · exact steady_cond hexpr
  · exact steady_lambda hexpr
  · exact steady_or hexpr

end Exprs

theorem steady_expr : expr.Steady R :=
  steady_fix fun _ hexpr => steady_exprWith hexpr

/-! ## Unions -/

theorem steady_tagField : tagField.Steady R := by
  refine steady_ident _ fun _ _ _ _ => (steady_sees _).bind fun _ => ?_
  refine steady_ite _ ?_ (steady_fail _ _)
  exact steady_advance.bind fun _ => (steady_typeElement _).bind fun _ => steady_pure _

/-- A lower-case name is blamed where it stands. -/
theorem steady_upperName (problem : String → Problem) : (upperName problem).Steady R := by
  refine steady_ident _ fun name pos pos' hpos => ?_
  dsimp only
  split
  · exact steady_pure name
  · exact couples_throw ⟨rfl, rfl, hpos⟩

theorem steady_tag : tag.Steady R := by
  refine (steady_upperName _).bind fun _ => (steady_sees _).bind fun _ => ?_
  refine steady_ite _ ?_ (steady_pure _)
  exact steady_advance.bind fun _ =>
    (steady_enclosed _ _ steady_tagField).bind fun _ => steady_pure _

theorem steady_union : union.Steady R := by
  refine (steady_expect _ _).bind fun _ => (steady_upperName _).bind fun _ =>
    (steady_names _).bind fun _ => (steady_expect _ _).bind fun _ =>
    (steady_sees _).bind fun found => ?_
  cases found with
  | true =>
    exact steady_advance.bind fun _ => steady_tag.bind fun _ =>
      (steady_manyAfter _ steady_tag).bind fun _ =>
      (steady_expectEnd _).bind fun _ => steady_pure _
  | false =>
    exact steady_tag.bind fun _ =>
      (steady_manyAfter _ steady_tag).bind fun _ =>
      (steady_expectEnd _).bind fun _ => steady_pure _

/-! ## Equations -/

theorem steady_signature : signature.Steady R := by
  refine steady_ident _ fun _ _ _ _ => (steady_expect _ _).bind fun _ =>
    (steady_typeElement _).bind fun _ => (steady_manyAfter _ (steady_typeElement _)).bind fun _ =>
    couples_get.bind fun c c' hc => ?_
  rw [hc.atLineStart]
  exact steady_ite _ (steady_pure _) (steady_fail _ _)

theorem signatureName?_alike {c c' : Cursor} (h : c.Alike R c') :
    signatureName? c = signatureName? c' := by
  obtain ⟨past, rest, finish⟩ := c
  obtain ⟨past', rest', finish'⟩ := c'
  obtain ⟨_, hrest, _⟩ := h
  cases hrest with
  | nil => rfl
  | @cons first first' _ _ hfirst hmore =>
    obtain ⟨l, pos⟩ := first
    obtain ⟨l', pos'⟩ := first'
    obtain rfl : l = l' := hfirst.lexeme
    cases hmore with
    | nil => cases l <;> rfl
    | cons hsecond _ => cases l <;> simp only [signatureName?, hsecond.lexeme]

/-- A clause blames a wrong name or count at its own name. -/
theorem declare_alike {declared : Option (String × List Ty)} {name : String} {pos pos' : Position}
    (params : List String) (body : Expr) (h : R pos pos') :
    (∃ decl, declare declared name pos params body = .ok decl ∧
        declare declared name pos' params body = .ok decl) ∨
      ∃ d d', declare declared name pos params body = .error d ∧
        declare declared name pos' params body = .error d' ∧ d.Alike R d' := by
  cases declared with
  | none => exact .inl ⟨_, rfl, rfl⟩
  | some found =>
    obtain ⟨signed, types⟩ := found
    unfold declare
    dsimp only
    split
    · exact .inr ⟨_, _, rfl, rfl, rfl, rfl, h⟩
    · split
      · exact .inl ⟨_, rfl, rfl⟩
      · exact .inr ⟨_, _, rfl, rfl, rfl, rfl, h⟩

theorem steady_clause (declared : Option (String × List Ty)) : (clause declared).Steady R := by
  refine steady_ident _ fun name pos pos' hpos => (steady_names _).bind fun params =>
    (steady_expect _ _).bind fun _ => steady_expr.bind fun body =>
    (steady_expectEnd _).bind fun _ => ?_
  rcases declare_alike params body hpos with ⟨decl, hok, hok'⟩ | ⟨d, d', herror, herror', hd⟩
  · rw [hok, hok']
    exact steady_pure decl
  · rw [herror, herror']
    exact couples_throw hd

theorem steady_equation : equation.Steady R := by
  intro c c' hc
  have hsame := signatureName?_alike hc
  cases hname : signatureName? c' with
  | none =>
    rw [equation_unsigned hname, equation_unsigned (hsame.trans hname)]
    exact steady_clause none hc
  | some name =>
    rw [equation_signed hname, equation_signed (hsame.trans hname)]
    exact steady_signature.bind (fun types => steady_clause (some (name, types))) hc

/-- A block's grammar is steady. -/
theorem steady_grammar (form : Form) : (Block.grammar form).Steady R := by
  cases form with
  | union => exact steady_union.bind fun _ => steady_pure _
  | function => exact steady_equation
  | const => exact steady_equation

end Polyglot.Grammar
