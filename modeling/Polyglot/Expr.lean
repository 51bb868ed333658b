/-!
# Expressions

Operator chains of one precedence nest to the right. Names, numbers and booleans are kept as
written.
-/

namespace Polyglot

inductive BinaryOp where
  | add
  | sub
  | mul
  | div
  | and
  | or
  | eq
  | ne
  | lt
  | le
  | gt
  | ge
deriving DecidableEq, Repr

/-- How tightly an operation binds. -/
def BinaryOp.precedence : BinaryOp → Nat
  | .or => 1
  | .and => 2
  | .eq | .ne | .lt | .le | .gt | .ge => 3
  | .add | .sub => 4
  | .mul | .div => 5

/-- The operation's sign in the source language. -/
def BinaryOp.sign : BinaryOp → String
  | .add => "+"
  | .sub => "-"
  | .mul => "*"
  | .div => "/"
  | .and => "&&"
  | .or => "||"
  | .eq => "=="
  | .ne => "!="
  | .lt => "<"
  | .le => "<="
  | .gt => ">"
  | .ge => ">="

inductive Expr where
  /-- A name, a number or a boolean. -/
  | value (body : String)
  /-- A string literal: the text between the quotes. -/
  | str (body : String)
  | list (items : List Expr)
  /-- A record; one that extends another has that one's name as `base`. -/
  | record (base : Option String) (fields : List (String × Expr))
  /-- A field on its own. -/
  | field (name : String) (content : Expr)
  | cond (test yes no : Expr)
  | lambda (params : List String) (body : Expr)
  /-- A tag applied to a record. -/
  | construct (tag : String) (base : Option String) (fields : List (String × Expr))
  | call (name : String) (args : List Expr)
  | binary (op : BinaryOp) (left right : Expr)
  /-- A node that is no expression, with the name of its kind. Nothing can render it. -/
  | unknown (kind : String)
deriving Repr, Inhabited

namespace Expr

def isBinary : Expr → Bool
  | .binary .. => true
  | _ => false

/-- How tightly an expression binds: everything but an operation binds tighter than any
operation. -/
def precedence : Expr → Nat
  | .binary op _ _ => op.precedence
  | _ => 10

/-- Whether an expression needs parentheses as an argument that stands beside its function.
Conditionals and lambdas bring their own. -/
def needsArgumentParens : Expr → Bool
  | .call .. | .binary .. => true
  | .construct _ _ fields => !fields.isEmpty
  | .value body => body.toList.head? == some '-'
  | _ => false

/-! ## Equality -/

mutual

def same : Expr → Expr → Bool
  | .value body, .value body' => body == body'
  | .str body, .str body' => body == body'
  | .list items, .list items' => sameAll items items'
  | .record base fields, .record base' fields' => base == base' && sameFields fields fields'
  | .field name content, .field name' content' => name == name' && same content content'
  | .cond test yes no, .cond test' yes' no' => same test test' && same yes yes' && same no no'
  | .lambda params body, .lambda params' body' => params == params' && same body body'
  | .construct tag base fields, .construct tag' base' fields' =>
      tag == tag' && base == base' && sameFields fields fields'
  | .call name args, .call name' args' => name == name' && sameAll args args'
  | .binary op left right, .binary op' left' right' =>
      op == op' && same left left' && same right right'
  | .unknown kind, .unknown kind' => kind == kind'
  | _, _ => false

def sameAll : List Expr → List Expr → Bool
  | [], [] => true
  | expr :: rest, expr' :: rest' => same expr expr' && sameAll rest rest'
  | _, _ => false

def sameFields : List (String × Expr) → List (String × Expr) → Bool
  | [], [] => true
  | (name, content) :: rest, (name', content') :: rest' =>
      name == name' && same content content' && sameFields rest rest'
  | _, _ => false

end

mutual

theorem same_iff : ∀ a b : Expr, same a b = true ↔ a = b
  | .value body, b => by
      cases b <;> simp [same]
  | .str body, b => by
      cases b <;> simp [same]
  | .list items, b => by
      cases b <;> simp [same, sameAll_iff items]
  | .record base fields, b => by
      cases b <;> simp [same, sameFields_iff fields]
  | .field name content, b => by
      cases b <;> simp [same, same_iff content]
  | .cond test yes no, b => by
      cases b <;> simp [same, same_iff test, same_iff yes, same_iff no, and_assoc]
  | .lambda params body, b => by
      cases b <;> simp [same, same_iff body]
  | .construct tag base fields, b => by
      cases b <;> simp [same, sameFields_iff fields, and_assoc]
  | .call name args, b => by
      cases b <;> simp [same, sameAll_iff args]
  | .binary op left right, b => by
      cases b <;> simp [same, same_iff left, same_iff right, and_assoc]
  | .unknown kind, b => by
      cases b <;> simp [same]

theorem sameAll_iff : ∀ as bs : List Expr, sameAll as bs = true ↔ as = bs
  | [], bs => by
      cases bs <;> simp [sameAll]
  | expr :: rest, bs => by
      cases bs <;> simp [sameAll, same_iff expr, sameAll_iff rest]

theorem sameFields_iff : ∀ as bs : List (String × Expr), sameFields as bs = true ↔ as = bs
  | [], bs => by
      cases bs <;> simp [sameFields]
  | (name, content) :: rest, bs => by
      cases bs with
      | nil => simp [sameFields]
      | cons b bs =>
          cases b
          simp [sameFields, same_iff content, sameFields_iff rest, and_assoc]

end

instance : DecidableEq Expr := fun a b =>
  decidable_of_iff (same a b = true) (same_iff a b)

end Expr

end Polyglot
