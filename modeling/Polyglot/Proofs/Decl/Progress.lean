import Polyglot.Proofs.Decl.Derivation
import Polyglot.Proofs.Progress

/-!
# Progress of the grammar

Every rule of the grammar reads a token where it succeeds, and none stalls. The rules that contain
others are stated for any two parsers of the inner rule that agree wherever fewer than `n` tokens
are left; for types and expressions this ties the knot.

Results:
1. `typeElement_eq`, `expr_eq`: the recursion of the grammar needs no bound.
2. `progress_typeElement`, `progress_expr`, `progress_tag`, `progress_union`, `progress_signature`,
   `progress_equation`: each of these rules reads at least one token, or fails in its own words.
-/

namespace Polyglot.Grammar

open Polyglot.Parser

/-! ## Types -/

section Types

variable {area : Area} {n : Nat} {p q : Parser Ty} {c : Cursor}
  (hp : ∀ c : Cursor, c.rest.length < n → Progress 1 p q c)

include hp

theorem progress_parenTypeWith (hc : c.rest.length ≤ n) :
    Progress 1 (parenTypeWith area p) (parenTypeWith area q) c := by
  refine (progress_expect _).bind fun _ c₁ h₁ => ?_
  refine (hp c₁ (by omega)).bind fun first c₂ h₂ => ?_
  refine (progress_manyAfter (k := n) hp (by omega)).bind fun rest _ _ => ?_
  exact (progress_expect _).bind fun _ _ _ => progress_pure _

theorem progress_argumentTypeWith (hc : c.rest.length ≤ n) :
    Progress 1 (argumentTypeWith area p) (argumentTypeWith area q) c := by
  rw [argumentTypeWith, argumentTypeWith, progress_sees]
  split
  · exact progress_parenTypeWith hp hc
  · exact progress_expectIdent.bind fun _ _ _ => progress_pure _

theorem progress_typeElementWith (hc : c.rest.length ≤ n) :
    Progress 1 (typeElementWith area p) (typeElementWith area q) c := by
  rw [typeElementWith, typeElementWith, progress_sees]
  split
  · exact progress_parenTypeWith hp hc
  · refine progress_expectIdent.bind fun _ c₁ h₁ => ?_
    refine (progress_many (k := n) (fun c hc _ => progress_argumentTypeWith hp (by omega))
      (by omega)).bind fun args _ _ => progress_pure _

end Types

/-- A type element is read as its rule says, however deep the types in it are nested. -/
theorem typeElement_eq (area : Area) :
    typeElement area = typeElementWith area (typeElement area) :=
  fix_eq fun _ _ _ hpq _ hc => progress_typeElementWith hpq (Nat.le_of_eq hc)

theorem progress_typeElement (area : Area) (c : Cursor) :
    Progress 1 (typeElement area) (typeElement area) c :=
  progress_fix (k := c.rest.length + 1)
    (fun _ _ _ _ hpq _ hc => progress_typeElementWith hpq (Nat.le_of_eq hc)) (Nat.lt_succ_self _)

/-! ## Expressions -/

theorem progress_operation {op? : Option Lexeme → Option BinaryOp} (hop : op? none = none)
    {left left' right right' : Parser Expr} {c : Cursor} (hleft : Progress 1 left left' c)
    (hright : ∀ c', c'.rest.length < c.rest.length → Progress 1 right right' c') :
    Progress 1 (operation op? left right) (operation op? left' right') c := by
  refine hleft.bind fun first c₁ h₁ => progress_peek.mpr ?_
  split
  · next op hsee =>
    cases hl : c₁.lexeme? with
    | none => rw [hl, hop] at hsee; cases hsee
    | some l =>
      refine (progress_advance hl).bind fun _ c₂ h₂ => ?_
      exact (hright c₂ (by omega)).bind fun _ _ _ => progress_pure _
  · exact progress_pure first

theorem progress_chain {op? : Option Lexeme → Option BinaryOp} (hop : op? none = none)
    {operand operand' : Parser Expr} {n : Nat}
    (h : ∀ c : Cursor, c.rest.length ≤ n → Progress 1 operand operand' c) {c : Cursor}
    (hc : c.rest.length ≤ n) : Progress 1 (chain op? operand) (chain op? operand') c := by
  refine progress_fix (k := n + 1) (fun m p q hm hpq c hlen => ?_) (Nat.lt_succ_of_le hc)
  exact progress_operation hop (h c (by omega)) fun c' hless => hpq c' (by omega)

theorem progress_negativeNumber {c : Cursor} {l : Lexeme} (hsee : c.lexeme? = some l) :
    Progress 1 negativeNumber negativeNumber c := by
  rw [negativeNumber, progress_get]
  split
  · refine (progress_advance hsee).bind fun _ _ _ => ?_
    exact progress_step.bind fun _ _ _ => progress_pure _
  · exact progress_fail fun _ => by simp

section Exprs

variable {n : Nat} {p q : Parser Expr} {c : Cursor}
  (hp : ∀ c : Cursor, c.rest.length < n → Progress 1 p q c)

include hp

theorem progress_fieldWith (hc : c.rest.length ≤ n) :
    Progress 1 (fieldWith p) (fieldWith q) c := by
  refine progress_expectIdent.bind fun _ c₁ h₁ => ?_
  refine (progress_expect _).bind fun _ c₂ h₂ => ?_
  exact (hp c₂ (by omega)).bind fun _ _ _ => progress_pure _

theorem progress_recordWith (hc : c.rest.length ≤ n) :
    Progress 1 (recordWith p) (recordWith q) c := by
  refine (progress_expect _).bind fun _ c₁ h₁ => ?_
  exact (progress_enclosed (fun _ => progress_fieldWith hp) (by omega)).mono (Nat.zero_le _)

theorem progress_atomWith (hc : c.rest.length ≤ n) : Progress 1 (atomWith p) (atomWith q) c := by
  rw [atomWith, atomWith, progress_peek]
  split
  · next hl => exact (progress_advance hl).bind fun _ _ _ => progress_pure _
  · next hl => exact (progress_advance hl).bind fun _ _ _ => progress_pure _
  · next hl => exact (progress_advance hl).bind fun _ _ _ => progress_pure _
  · next hl => exact progress_negativeNumber hl
  · next hl =>
    refine (progress_advance hl).bind fun _ c₁ h₁ => ?_
    refine (hp c₁ (by omega)).bind fun _ _ _ => ?_
    exact (progress_expect _).bind fun _ _ _ => progress_pure _
  · next hl =>
    refine (progress_advance hl).bind fun _ c₁ h₁ => ?_
    exact (progress_enclosed (k := n - 1) (fun c hc => hp c (by omega)) (by omega)).bind
      fun _ _ _ => progress_pure _
  · exact (progress_recordWith hp hc).bind fun _ _ _ => progress_pure _
  · exact progress_fail fun _ => by simp

theorem progress_applicationWith (hc : c.rest.length ≤ n) :
    Progress 1 (applicationWith p) (applicationWith q) c := by
  rw [applicationWith, applicationWith, progress_peek]
  split
  · next name hl =>
    refine (progress_advance hl).bind fun _ c₁ h₁ => ?_
    split
    · refine progress_sees.mpr ?_
      split
      · exact (progress_recordWith hp (by omega)).bind fun _ _ _ => progress_pure _
      · exact progress_pure _
    · refine (progress_many (k := n) (fun c hc _ => progress_atomWith hp (by omega))
        (by omega)).bind fun _ _ _ => progress_pure _
  · exact progress_atomWith hp hc

theorem progress_productWith (hc : c.rest.length ≤ n) :
    Progress 1 (productWith p) (productWith q) c :=
  progress_chain rfl (fun _ => progress_applicationWith hp) hc

theorem progress_sumWith (hc : c.rest.length ≤ n) : Progress 1 (sumWith p) (sumWith q) c :=
  progress_chain rfl (fun _ => progress_productWith hp) hc

theorem progress_compareWith (hc : c.rest.length ≤ n) :
    Progress 1 (compareWith p) (compareWith q) c :=
  progress_operation rfl (progress_sumWith hp hc) fun _ hless =>
    progress_sumWith hp (Nat.le_of_lt (Nat.lt_of_lt_of_le hless hc))

theorem progress_andWith (hc : c.rest.length ≤ n) : Progress 1 (andWith p) (andWith q) c :=
  progress_chain rfl (fun _ => progress_compareWith hp) hc

theorem progress_orWith (hc : c.rest.length ≤ n) : Progress 1 (orWith p) (orWith q) c :=
  progress_chain rfl (fun _ => progress_andWith hp) hc

theorem progress_condWith (hc : c.rest.length ≤ n) : Progress 1 (condWith p) (condWith q) c := by
  refine (progress_expect _).bind fun _ c₁ h₁ => ?_
  refine (hp c₁ (by omega)).bind fun _ c₂ h₂ => ?_
  refine (progress_expect _).bind fun _ c₃ h₃ => ?_
  refine (hp c₃ (by omega)).bind fun _ c₄ h₄ => ?_
  refine (progress_expect _).bind fun _ c₅ h₅ => ?_
  exact (hp c₅ (by omega)).bind fun _ _ _ => progress_pure _

theorem progress_lambdaWith (hc : c.rest.length ≤ n) :
    Progress 1 (lambdaWith p) (lambdaWith q) c := by
  refine (progress_expect _).bind fun _ c₁ h₁ => ?_
  refine progress_expectIdent.bind fun _ c₂ h₂ => ?_
  refine progress_names.bind fun _ c₃ h₃ => ?_
  refine (progress_expect _).bind fun _ c₄ h₄ => ?_
  exact (hp c₄ (by omega)).bind fun _ _ _ => progress_pure _

theorem progress_exprWith (hc : c.rest.length ≤ n) : Progress 1 (exprWith p) (exprWith q) c := by
  rw [exprWith, exprWith, progress_peek]
  split
  · exact progress_condWith hp hc
  · exact progress_lambdaWith hp hc
  · exact progress_orWith hp hc

end Exprs

/-- An expression is read as its rule says, however deep the expressions in it are nested. -/
theorem expr_eq : expr = exprWith expr :=
  fix_eq fun _ _ _ hpq _ hc => progress_exprWith hpq (Nat.le_of_eq hc)

theorem progress_expr (c : Cursor) : Progress 1 expr expr c :=
  progress_fix (k := c.rest.length + 1)
    (fun _ _ _ _ hpq _ hc => progress_exprWith hpq (Nat.le_of_eq hc)) (Nat.lt_succ_self _)

/-! ## Declarations -/

variable {c : Cursor}

theorem progress_tagField : Progress 1 tagField tagField c := by
  refine progress_expectIdent.bind fun _ c₁ _ => progress_sees.mpr ?_
  split
  · refine progress_step.bind fun _ c₂ _ => ?_
    exact (progress_typeElement _ c₂).bind fun _ _ _ => progress_pure _
  · exact progress_fail fun _ => by simp

theorem progress_upperName {problem : String → Problem} (h : ∀ name, problem name ≠ .stalled) :
    Progress 1 (upperName problem) (upperName problem) c := by
  refine progress_expectIdent.bind fun found _ _ => ?_
  obtain ⟨name, pos⟩ := found
  dsimp only
  split
  · exact progress_pure name
  · exact progress_throw (h name)

theorem progress_tag : Progress 1 tag tag c := by
  refine (progress_upperName fun _ => by simp).bind fun name c₁ _ => progress_sees.mpr ?_
  split
  · refine progress_step.bind fun _ c₂ _ => ?_
    exact (progress_enclosed (k := c₂.rest.length) (fun _ _ => progress_tagField)
      (Nat.le_refl _)).bind fun _ _ _ => progress_pure _
  · exact progress_pure _

/-- The bar before the first tag may be missing. -/
theorem progress_bar {α : Type} {least : Nat} {p : Parser α} (h : ∀ c, Progress least p p c) :
    Progress least
      (do if ← sees (.symbol .bar) then advance
          p : Parser α)
      (do if ← sees (.symbol .bar) then advance
          p) c := by
  refine progress_sees.mpr ?_
  split
  · exact progress_step.bind fun _ after _ => h after
  · exact h c

theorem progress_union : Progress 1 union union c := by
  refine (progress_expect _).bind fun _ _ _ => ?_
  refine (progress_upperName fun _ => by simp).bind fun _ _ _ => ?_
  refine progress_names.bind fun _ _ _ => ?_
  refine (progress_expect _).bind fun _ _ _ => progress_bar fun _ => ?_
  refine progress_tag.bind fun _ c₁ _ => ?_
  refine (progress_manyAfter (k := c₁.rest.length) (fun _ _ => progress_tag)
    (Nat.le_refl _)).bind fun _ _ _ => ?_
  exact progress_expectEnd.bind fun _ _ _ => progress_pure _

theorem progress_signature : Progress 1 signature signature c := by
  refine progress_expectIdent.bind fun _ c₁ _ => ?_
  refine (progress_expect _).bind fun _ c₂ _ => ?_
  refine (progress_typeElement _ c₂).bind fun _ c₃ _ => ?_
  refine (progress_manyAfter (k := c₃.rest.length) (fun c _ => progress_typeElement _ c)
    (Nat.le_refl _)).bind fun _ c₄ _ => progress_get.mpr ?_
  split
  · exact progress_pure _
  · exact progress_fail fun _ => by simp

theorem problem_of_declare_error {declared : Option (String × List Ty)} {name : String}
    {pos : Position} {params : List String} {body : Expr} {d : Diagnostic}
    (h : declare declared name pos params body = .error d) : d.problem ≠ .stalled := by
  unfold declare at h
  split at h
  · cases h
  · split at h
    · cases h
      simp
    · dsimp only at h
      split at h
      · cases h
      · cases h
        simp

theorem progress_clause (declared : Option (String × List Ty)) :
    Progress 1 (clause declared) (clause declared) c := by
  refine progress_expectIdent.bind fun found _ _ => ?_
  refine progress_names.bind fun params _ _ => ?_
  refine (progress_expect _).bind fun _ c₃ _ => ?_
  refine (progress_expr c₃).bind fun body _ _ => ?_
  refine progress_expectEnd.bind fun _ c₅ _ => ?_
  cases hdecl : declare declared found.1 found.2 params body with
  | ok decl => exact progress_pure decl
  | error d => exact progress_throw (problem_of_declare_error hdecl)

theorem progress_equation : Progress 1 equation equation c := by
  -- the rule looks ahead for a signature, and then it is one of two parsers
  cases hname : signatureName? c with
  | none =>
    rw [Progress, equation_unsigned hname]
    exact progress_clause none
  | some name =>
    rw [Progress, equation_signed hname]
    exact progress_signature.bind fun types _ _ =>
      (progress_clause (some (name, types))).mono (Nat.zero_le _)

end Polyglot.Grammar
