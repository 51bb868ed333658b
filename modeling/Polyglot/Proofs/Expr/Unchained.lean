import Polyglot.Proofs.Expr.Surface

/-!
# Reading a written expression

Operands of equal precedence are written without parentheses on the right, because the grammar
nests chains to the right. The grammar has no chains of comparisons, though, so an expression
comes back from the lexemes it is written as if it is `unchained`: no comparison in it has a
comparison as its right operand.

Results:
1. `derives_lexemes`: inside a line, by the rule for what binds as the expression does.
2. `derives_bodyLexemes`: on lines of its own.
-/

namespace Polyglot

def BinaryOp.isComparison (op : BinaryOp) : Bool :=
  op.precedence == 3

namespace Expr

def isComparison : Expr → Bool
  | .binary op _ _ => op.isComparison
  | _ => false

mutual

/-- No comparison has a comparison as its right operand, at any depth. -/
def unchained : Expr → Bool
  | .value _ | .str _ | .unknown _ => true
  | .list items => unchainedAll items
  | .record _ fields => unchainedFields fields
  | .field _ content => unchained content
  | .cond test yes no => unchained test && (unchained yes && unchained no)
  | .lambda _ body => unchained body
  | .construct _ _ fields => unchainedFields fields
  | .call _ args => unchainedAll args
  | .binary op left right =>
      !(op.isComparison && right.isComparison) && (unchained left && unchained right)

def unchainedAll : List Expr → Bool
  | [] => true
  | expr :: rest => unchained expr && unchainedAll rest

def unchainedFields : List (String × Expr) → Bool
  | [] => true
  | (_, content) :: rest => unchained content && unchainedFields rest

end

theorem unchainedAll_eq_all (items : List Expr) : unchainedAll items = items.all unchained := by
  induction items with
  | nil => rfl
  | cons e items ih => rw [unchainedAll, ih, List.all_cons]

theorem unchainedFields_eq_all (fields : List (String × Expr)) :
    unchainedFields fields = fields.all fun f => f.2.unchained := by
  induction fields with
  | nil => rfl
  | cons f fields ih => rw [unchainedFields, ih, List.all_cons]

end Expr

/-! ## Expressions without chained comparisons -/

namespace Grammar

open Polyglot.Expr

/-- The rule for operands that bind with at least `level`. -/
def Rule.ofLevel : Nat → Rule
  | 0 | 1 => .or
  | 2 => .and
  | 3 => .compare
  | 4 => .sum
  | 5 => .product
  | _ => .application

/-- A tighter phrase is also a looser one. -/
theorem derives_ofLevel_mono {level level' : Nat} {ls : List Lexeme} {e : Expr}
    (h : Derives (.ofLevel level) ls e) (hle : level' ≤ level) : Derives (.ofLevel level') ls e := by
  induction level with
  | zero =>
    rw [Nat.le_zero.mp hle]
    exact h
  | succ level ih =>
    rcases Nat.le_succ_iff.mp hle with hle | rfl
    · refine ih ?_ hle
      match level, h with
      | 0, h => exact h
      | 1, h => exact .orOne h
      | 2, h => exact .andOne h
      | 3, h => exact .compareOne h
      | 4, h => exact .sumOne h
      | 5, h => exact .productOne h
      | _ + 6, h => exact h
    · exact h

theorem derives_inParens {ls : List Lexeme} {e : Expr} (h : Derives .expr ls e) :
    Derives .primary (inParens ls) e :=
  .paren h

theorem derives_expr_of_level {level : Nat} {ls : List Lexeme} {e : Expr}
    (h : Derives (.ofLevel level) ls e) : Derives .expr ls e :=
  .or (derives_ofLevel_mono h (Nat.zero_le level))

/-- An operand that binds at least as tightly as it has to, or stands in parentheses. -/
theorem derives_parensIf {level k : Nat} {condition : Bool} {ls : List Lexeme} {e : Expr}
    (h : Derives (.ofLevel k) ls e) (hlevel : condition = false → level ≤ k) (hle : level ≤ 6) :
    Derives (.ofLevel level) (parensIf condition ls) e := by
  cases condition with
  | false => exact derives_ofLevel_mono h (hlevel rfl)
  | true =>
    have hparens : Derives (.ofLevel 6) (inParens ls) e :=
      .operand (derives_inParens (derives_expr_of_level h))
    exact derives_ofLevel_mono hparens hle

/-- The operands of an operation: the left one binds tighter, and the right one at least as
tightly, or tighter if the operation is a comparison. -/
theorem derives_binary {op : BinaryOp} {ls ms : List Lexeme} {left right : Expr}
    (hleft : Derives (.ofLevel (op.precedence + 1)) ls left)
    (hright : Derives (.ofLevel (if op.isComparison then 4 else op.precedence)) ms right) :
    Derives (.ofLevel op.precedence) (ls ++ .symbol op.symbol :: ms) (.binary op left right) := by
  cases op with
  | add => exact .sumMore (show BinaryOp.add ∈ _ by decide) hleft hright
  | sub => exact .sumMore (show BinaryOp.sub ∈ _ by decide) hleft hright
  | mul => exact .productMore (show BinaryOp.mul ∈ _ by decide) hleft hright
  | div => exact .productMore (show BinaryOp.div ∈ _ by decide) hleft hright
  | and => exact .andMore hleft hright
  | or => exact .orMore hleft hright
  | eq => exact .compareTwo (show BinaryOp.eq ∈ _ by decide) hleft hright
  | ne => exact .compareTwo (show BinaryOp.ne ∈ _ by decide) hleft hright
  | lt => exact .compareTwo (show BinaryOp.lt ∈ _ by decide) hleft hright
  | le => exact .compareTwo (show BinaryOp.le ∈ _ by decide) hleft hright
  | gt => exact .compareTwo (show BinaryOp.gt ∈ _ by decide) hleft hright
  | ge => exact .compareTwo (show BinaryOp.ge ∈ _ by decide) hleft hright

/-- Items between brackets, from a derivation of each. -/
theorem bracketed_inBrackets {α : Type} {P : List Lexeme → α → Prop} {f : α → List Lexeme}
    {items : List α} (opening closing : Symbol) (h : ∀ a ∈ items, P (f a) a) :
    Bracketed opening closing P (inBrackets opening closing (items.map f)) items := by
  cases items with
  | nil => exact .nil
  | cons first rest =>
    rw [inBrackets, List.intercalate_eq_flatMap, List.append_assoc]
    exact .cons (h first List.mem_cons_self)
      (manyAfter_of_forall (fun a ha => h a (List.mem_cons_of_mem first ha)) _)

theorem bracketed_fields {fields : List (String × Expr)}
    (h : ∀ f ∈ fields, Derives (.ofLevel f.2.precedence) f.2.lexemes f.2) :
    Bracketed .openBrace .closeBrace (Labelled (Derives .expr))
      (inBrackets .openBrace .closeBrace (fieldLexemes fields)) fields := by
  rw [fieldLexemes_eq_map]
  exact bracketed_inBrackets _ _ fun f hf => .mk (derives_expr_of_level (h f hf))

/-- What stands beside a function name without parentheses is an atom. -/
theorem derives_argument {arg : Expr} (hproper : arg.Proper)
    (h : Derives (.ofLevel arg.precedence) arg.lexemes arg) :
    Derives .atom (parensIf arg.needsArgumentParens arg.lexemes) arg := by
  cases hparens : arg.needsArgumentParens with
  | true => exact .argument (derives_inParens (derives_expr_of_level h))
  | false =>
    cases hproper with
    | @name name hname hlower =>
      rw [lexemes, wordLexemes_name hname]
      have hvalue : Derives .atom [.ident name] (nameExpr name) := .name
      rw [nameExpr, hlower] at hvalue
      exact hvalue
    | number hdigits =>
      rw [lexemes, wordLexemes_number hdigits]
      exact .argument .number
    | negative _ => simp [needsArgumentParens] at hparens
    | @construct tag fields _ hupper _ _ =>
      cases fields with
      | nil =>
        have htag : Derives .atom [.ident tag] (nameExpr tag) := .name
        rw [nameExpr, hupper] at htag
        exact htag
      | cons f fields => simp [needsArgumentParens] at hparens
    | call _ _ _ _ => simp [needsArgumentParens] at hparens
    | binary _ _ => simp [needsArgumentParens] at hparens
    | str _ | list _ | record _ _ | cond _ _ _ | lambda _ _ _ =>
      -- These are applications only as operands, and operands are arguments as they are.
      cases h with
      | operand h => exact .argument h

theorem isComparison_of_precedence {e : Expr} (h : e.precedence = 3) : e.isComparison = true := by
  cases e with
  | binary op _ _ => exact beq_iff_eq.mpr h
  | _ => cases h

theorem lt_of_needsParens_left {child parent : Nat} (h : needsParens .left child parent = false) :
    parent < child := by
  simp only [needsParens] at h
  split at h
  · cases h
  · rw [decide_eq_false_iff_not] at h
    omega

theorem le_of_needsParens_right {child parent : Nat} (h : needsParens .right child parent = false) :
    parent ≤ child := by
  simp only [needsParens] at h
  split at h
  · omega
  · rw [decide_eq_false_iff_not] at h
    omega

/-- An expression without chained comparisons is derived from its lexemes, by the rule for what
binds as it does. -/
theorem derives_lexemes {e : Expr} (h : e.Proper) (hgood : e.unchained = true) :
    Derives (.ofLevel e.precedence) e.lexemes e := by
  induction h with
  | @name name hname hlower =>
    rw [lexemes, wordLexemes_name hname]
    exact .value hlower
  | @number digits hdigits =>
    rw [lexemes, wordLexemes_number hdigits]
    exact .operand .number
  | @negative digits hdigits =>
    rw [lexemes, wordLexemes_negative]
    exact .negative
  | str _ => exact .operand .string
  | @list items _ ih =>
    rw [unchained, unchainedAll_eq_all, List.all_eq_true] at hgood
    rw [lexemes, lexemesAll_eq_map]
    exact .operand (.list
      (bracketed_inBrackets _ _ fun e he => derives_expr_of_level (ih e he (hgood e he))))
  | @record fields _ _ ih =>
    rw [unchained, unchainedFields_eq_all, List.all_eq_true] at hgood
    exact .operand (.record (bracketed_fields fun f hf => ih f hf (hgood f hf)))
  | cond _ _ _ ihtest ihyes ihno =>
    simp only [unchained, Bool.and_eq_true] at hgood
    exact .operand (.paren (.cond (derives_expr_of_level (ihtest hgood.1))
      (derives_expr_of_level (ihyes hgood.2.1)) (derives_expr_of_level (ihno hgood.2.2))))
  | @lambda params body hne _ _ ih =>
    obtain ⟨first, others, rfl⟩ := List.exists_cons_of_ne_nil hne
    exact .operand (.paren (.lambda (derives_expr_of_level (ih hgood))))
  | @construct tag fields _ hupper _ _ ih =>
    rw [unchained, unchainedFields_eq_all, List.all_eq_true] at hgood
    cases fields with
    | nil => exact .construct hupper
    | cons f fields =>
      exact .constructWith hupper (bracketed_fields fun f hf => ih f hf (hgood f hf))
  | @call name args _ hlower hne hargs ih =>
    rw [unchained, unchainedAll_eq_all, List.all_eq_true] at hgood
    have hatom : ∀ arg ∈ args,
        Derives .atom (parensIf arg.needsArgumentParens arg.lexemes) arg :=
      fun arg harg => derives_argument (hargs arg harg) (ih arg harg (hgood arg harg))
    obtain ⟨first, others, rfl⟩ := List.exists_cons_of_ne_nil hne
    rw [lexemes, argumentLexemes_eq_map]
    exact .call hlower (hatom first List.mem_cons_self)
      (many_of_forall fun arg harg => hatom arg (List.mem_cons_of_mem first harg))
  | @binary op left right _ _ ihleft ihright =>
    simp only [unchained, Bool.and_eq_true, Bool.not_eq_true', Bool.and_eq_false_iff] at hgood
    have hbound : op.precedence + 1 ≤ 6 := by
      cases op <;> decide
    refine derives_binary (derives_parensIf (ihleft hgood.2.1) (fun hparens => ?_) hbound)
      (derives_parensIf (ihright hgood.2.2) (fun hparens => ?_) ?_)
    · exact lt_of_needsParens_left hparens
    · have hle := le_of_needsParens_right hparens
      split
      · next hcompare =>
        have hright : right.precedence ≠ 3 := by
          intro hthree
          rcases hgood.1 with hop | hright
          · rw [hcompare] at hop
            cases hop
          · rw [isComparison_of_precedence hthree] at hright
            cases hright
        have hthree : op.precedence = 3 := beq_iff_eq.mp hcompare
        omega
      · exact hle
    · split <;> omega

/-- An expression without chained comparisons is derived from the lexemes of its own lines. -/
theorem derives_bodyLexemes {e : Expr} (h : e.Proper) (hgood : e.unchained = true) :
    Derives .expr e.bodyLexemes e := by
  induction h with
  | cond htest _ _ _ ihyes ihno =>
    simp only [unchained, Bool.and_eq_true] at hgood
    exact .cond (derives_expr_of_level (derives_lexemes htest hgood.1)) (ihyes hgood.2.1)
      (ihno hgood.2.2)
  | @lambda params body hne _ hbody _ =>
    obtain ⟨first, others, rfl⟩ := List.exists_cons_of_ne_nil hne
    exact .lambda (derives_expr_of_level (derives_lexemes hbody hgood))
  | name hname hlower => exact derives_expr_of_level (derives_lexemes (.name hname hlower) hgood)
  | number hdigits => exact derives_expr_of_level (derives_lexemes (.number hdigits) hgood)
  | negative hdigits => exact derives_expr_of_level (derives_lexemes (.negative hdigits) hgood)
  | str hbody => exact derives_expr_of_level (derives_lexemes (.str hbody) hgood)
  | list hitems _ => exact derives_expr_of_level (derives_lexemes (.list hitems) hgood)
  | record hnames hfields _ =>
    exact derives_expr_of_level (derives_lexemes (.record hnames hfields) hgood)
  | construct htag hupper hnames hfields _ =>
    exact derives_expr_of_level (derives_lexemes (.construct htag hupper hnames hfields) hgood)
  | call hname hlower hne hargs _ =>
    exact derives_expr_of_level (derives_lexemes (.call hname hlower hne hargs) hgood)
  | binary hleft hright _ _ =>
    exact derives_expr_of_level (derives_lexemes (.binary hleft hright) hgood)

end Grammar

end Polyglot
