import Polyglot.Proofs.Expr.Derivation
import Polyglot.Proofs.Token.Joined

/-!
# Proper expressions

An expression that was read is `Proper`: its names, numbers and strings can be written, and its
parts are as the grammar makes them. `derives_proper` says that what the grammar derives from valid
lexemes is proper.
-/

namespace Polyglot

namespace Expr

/-- The expressions that can be read. -/
inductive Proper : Expr → Prop
  | name {name : String} : isPlainName name → isUpperName name = false → Proper (.value name)
  | number {digits : String} : isNumeral digits.toList = true → Proper (.value digits)
  | negative {digits : String} : isNumeral digits.toList = true → Proper (.value ("-" ++ digits))
  | str {body : String} : isStringBody body.toList = true → Proper (.str body)
  | list {items : List Expr} : (∀ e ∈ items, Proper e) → Proper (.list items)
  | record {fields : List (String × Expr)} : (∀ f ∈ fields, isPlainName f.1) →
      (∀ f ∈ fields, Proper f.2) → Proper (.record none fields)
  | cond {test yes no : Expr} : Proper test → Proper yes → Proper no → Proper (.cond test yes no)
  | lambda {params : List String} {body : Expr} : params ≠ [] → (∀ p ∈ params, isPlainName p) →
      Proper body → Proper (.lambda params body)
  | construct {tag : String} {fields : List (String × Expr)} : isPlainName tag →
      isUpperName tag = true → (∀ f ∈ fields, isPlainName f.1) → (∀ f ∈ fields, Proper f.2) →
      Proper (.construct tag none fields)
  | call {name : String} {args : List Expr} : isPlainName name → isUpperName name = false →
      args ≠ [] → (∀ e ∈ args, Proper e) → Proper (.call name args)
  | binary {op : BinaryOp} {left right : Expr} : Proper left → Proper right →
      Proper (.binary op left right)

end Expr

namespace Grammar

open Polyglot.Expr

theorem nameExpr_proper {name : String} (h : isPlainName name) : (nameExpr name).Proper := by
  unfold nameExpr
  split
  · next hupper => exact .construct h hupper (by simp) (by simp)
  · next hupper => exact .name h (by simpa using hupper)

theorem fields_proper {ls : List Lexeme} {fields : List (String × Expr)}
    (h : Bracketed .openBrace .closeBrace (Labelled (Derives .expr)) ls fields) (hv : Valid ls)
    (ih : ∀ {ms e}, Derives .expr ms e → ms.length < ls.length → Valid ms → e.Proper) :
    ∀ f ∈ fields, isPlainName f.1 ∧ f.2.Proper := by
  intro f hf
  obtain ⟨us, hpart, hlength, hlabelled⟩ := h.exists_of_mem hf
  have hus := hv.of_part hpart
  cases hlabelled with
  | @mk name ms e hcontent =>
    rw [List.length_cons, List.length_cons] at hlength
    rw [valid_cons, valid_cons] at hus
    exact ⟨hus.1, ih hcontent (by omega) hus.2.2⟩

/-- What the grammar derives from valid lexemes is proper. -/
theorem derives_proper {rule : Rule} {ls : List Lexeme} {e : Expr} (h : Derives rule ls e) :
    Valid ls → e.Proper := by
  refine derives_induction (motive := fun _ ls e => Valid ls → e.Proper) (fun h ih hv => ?_) h
  cases h with
  | cond htest hyes hno =>
    simp only [valid_cons, valid_append] at hv
    exact .cond (ih htest (.inl (by grind)) hv.2.1)
      (ih hyes (.inl (by grind)) hv.2.2.2.1) (ih hno (.inl (by grind)) hv.2.2.2.2.2)
  | @lambda first others _ body hbody =>
    simp only [valid_cons, valid_append] at hv
    have hothers : ∀ p ∈ others, isPlainName p := fun p hp => hv.2.2.1 _ (List.mem_map_of_mem hp)
    exact .lambda (List.cons_ne_nil _ _) (List.forall_mem_cons.mpr ⟨hv.2.1, hothers⟩)
      (ih hbody (.inl (by grind)) hv.2.2.2.2)
  | or h | orOne h | andOne h | compareOne h | sumOne h | productOne h | operand h | argument h =>
    exact ih h (.inr ⟨rfl, by decide⟩) hv
  | orMore hl hr | andMore hl hr | compareTwo _ hl hr | sumMore _ hl hr | productMore _ hl hr =>
    rw [valid_append, valid_cons] at hv
    exact .binary (ih hl (.inl (by simp)) hv.1) (ih hr (.inl (by grind)) hv.2.2)
  | construct hupper => exact .construct (hv _ List.mem_cons_self) hupper (by simp) (by simp)
  | constructWith hupper h =>
    rw [valid_cons] at hv
    have hfields := fields_proper h hv.2 fun h' hlength =>
      ih h' (.inl (Nat.lt_succ_of_lt hlength))
    exact .construct hv.1 hupper (fun f hf => (hfields f hf).1) fun f hf => (hfields f hf).2
  | value hlower => exact .name (hv _ List.mem_cons_self) hlower
  | call hlower harg hargs =>
    simp only [valid_cons, valid_append] at hv
    refine .call hv.1 hlower (List.cons_ne_nil _ _)
      (List.forall_mem_cons.mpr ⟨ih harg (.inl (by grind)) hv.2.1, fun e he => ?_⟩)
    obtain ⟨us, hpart, hus⟩ := hargs.exists_of_mem he
    have hlength := hpart.length_le
    exact ih hus (.inl (by grind)) (hv.2.2.of_part hpart)
  | @negative digits => exact .negative (hv (.number digits) (by simp))
  | name => exact nameExpr_proper (hv _ List.mem_cons_self)
  | number => exact .number (hv _ List.mem_cons_self)
  | string => exact .str (hv _ List.mem_cons_self)
  | list h =>
    refine .list fun e he => ?_
    obtain ⟨us, hpart, hlength, hus⟩ := h.exists_of_mem he
    exact ih hus (.inl hlength) (hv.of_part hpart)
  | record h =>
    have hfields := fields_proper h hv fun h' hlength => ih h' (.inl hlength)
    exact .record (fun f hf => (hfields f hf).1) fun f hf => (hfields f hf).2
  | paren h =>
    simp only [valid_cons, valid_append] at hv
    exact ih h (.inl (by grind)) hv.2.1

end Grammar

end Polyglot
