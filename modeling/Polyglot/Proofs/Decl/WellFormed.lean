import Polyglot.Proofs.Decl.Parameters
import Polyglot.Proofs.Decl.Proper

/-!
# Well-formed declarations

The shape that rendering relies on and never tests: a union has a first tag and names for its
parameters, a function type has a result, no node is of an unknown kind. `wellFormed` checks it at every depth, together with what
else is common to everything that is read. What is proper is well-formed.
-/

namespace Polyglot

/-! ## Types -/

namespace Ty

mutual

/-- Every function type has a parameter and a result. -/
def wellFormed : Ty → Bool
  | .named _ args => wellFormedAll args
  | .var _ => true
  | .func parts => 2 ≤ parts.length && wellFormedAll parts

def wellFormedAll : List Ty → Bool
  | [] => true
  | ty :: rest => wellFormed ty && wellFormedAll rest

end

theorem wellFormedAll_iff {types : List Ty} :
    wellFormedAll types = true ↔ ∀ ty ∈ types, ty.wellFormed = true := by
  induction types with
  | nil => exact iff_of_true rfl fun _ hty => absurd hty List.not_mem_nil
  | cons ty types ih => rw [wellFormedAll, Bool.and_eq_true, ih, List.forall_mem_cons]

theorem Proper.wellFormed {nested : Bool} {ty : Ty} (h : ty.Proper nested) :
    ty.wellFormed = true := by
  induction h with
  | var _ _ _ => rfl
  | constant _ _ => rfl
  | applied _ _ _ ih => exact wellFormedAll_iff.mpr ih
  | func hlength _ ih =>
    rw [Ty.wellFormed, Bool.and_eq_true, decide_eq_true_eq]
    exact ⟨hlength, wellFormedAll_iff.mpr ih⟩

end Ty

/-! ## Expressions -/

namespace Expr

mutual

/-- Calls have a lower-case name and an argument, lambdas a parameter, tags an upper-case name; no
record extends another, and every node is an expression. -/
def wellFormed : Expr → Bool
  | .value _ | .str _ => true
  | .list items => wellFormedAll items
  | .record base fields => base.isNone && wellFormedFields fields
  | .field _ _ | .unknown _ => false
  | .cond test yes no => wellFormed test && (wellFormed yes && wellFormed no)
  | .lambda params body => !params.isEmpty && wellFormed body
  | .construct tag base fields => isUpperName tag && (base.isNone && wellFormedFields fields)
  | .call name args => !isUpperName name && (!args.isEmpty && wellFormedAll args)
  | .binary _ left right => wellFormed left && wellFormed right

def wellFormedAll : List Expr → Bool
  | [] => true
  | expr :: rest => wellFormed expr && wellFormedAll rest

def wellFormedFields : List (String × Expr) → Bool
  | [] => true
  | (_, content) :: rest => wellFormed content && wellFormedFields rest

end

theorem wellFormedAll_iff {items : List Expr} :
    wellFormedAll items = true ↔ ∀ e ∈ items, e.wellFormed = true := by
  induction items with
  | nil => exact iff_of_true rfl fun _ he => absurd he List.not_mem_nil
  | cons e items ih => rw [wellFormedAll, Bool.and_eq_true, ih, List.forall_mem_cons]

theorem wellFormedFields_iff {fields : List (String × Expr)} :
    wellFormedFields fields = true ↔ ∀ f ∈ fields, f.2.wellFormed = true := by
  induction fields with
  | nil => exact iff_of_true rfl fun _ hf => absurd hf List.not_mem_nil
  | cons f fields ih => rw [wellFormedFields, Bool.and_eq_true, ih, List.forall_mem_cons]

theorem Proper.wellFormed {e : Expr} (h : e.Proper) : e.wellFormed = true := by
  induction h with
  | name _ _ => rfl
  | number _ => rfl
  | negative _ => rfl
  | str _ => rfl
  | list _ ih => exact wellFormedAll_iff.mpr ih
  | record _ _ ih => exact wellFormedFields_iff.mpr ih
  | cond _ _ _ htest hyes hno => simp only [Expr.wellFormed, htest, hyes, hno, Bool.and_self]
  | lambda hne _ _ ih => simp [Expr.wellFormed, hne, ih]
  | construct _ hupper _ _ ih => simp [Expr.wellFormed, hupper, wellFormedFields_iff.mpr ih]
  | call _ hlower hne _ ih => simp [Expr.wellFormed, hlower, hne, wellFormedAll_iff.mpr ih]
  | binary _ _ hleft hright => simp only [Expr.wellFormed, hleft, hright, Bool.and_self]

end Expr

/-! ## Declarations -/

def Binding.wellFormed (binding : Binding) : Bool :=
  binding.type.wellFormed

def Tag.wellFormed (tag : Tag) : Bool :=
  tag.fields.all Binding.wellFormed

def Union.wellFormed (union : Union) : Bool :=
  union.params.all (·.name?.isSome) && (Ty.wellFormedAll union.params &&
    (!union.tags.isEmpty && union.tags.all Tag.wellFormed))

theorem Union.named_of_wellFormed {union : Union} (h : union.wellFormed = true) :
    union.Named := by
  rw [Union.wellFormed, Bool.and_eq_true, List.all_eq_true] at h
  intro parts hparts
  cases h.1 _ hparts

def Equation.wellFormed (equation : Equation) : Bool :=
  equation.params.all Binding.wellFormed && (equation.result.wellFormed && equation.body.wellFormed)

/-- A union has a tag and names for its parameters, a function has a parameter and a constant has none. -/
def Decl.wellFormed : Decl → Bool
  | .union declared => declared.wellFormed
  | .function equation => !equation.params.isEmpty && equation.wellFormed
  | .const equation => equation.params.isEmpty && equation.wellFormed
  | .unknown _ => false

theorem Union.Proper.wellFormed {union : Union} (h : union.Proper) : union.wellFormed = true := by
  obtain ⟨names, hparams, _⟩ := h.params
  have hvars : Ty.wellFormedAll union.params = true := by
    rw [hparams, Ty.wellFormedAll_iff]
    intro ty hty
    obtain ⟨name, _, rfl⟩ := List.mem_map.mp hty
    rfl
  have htags : union.tags.all Tag.wellFormed = true := by
    refine List.all_eq_true.mpr fun tag htag => List.all_eq_true.mpr fun field hfield => ?_
    exact ((h.tags tag htag).fields field hfield).type.wellFormed
  have hnames : union.params.all (·.name?.isSome) = true := by
    rw [hparams, List.all_map, List.all_eq_true]
    exact fun name _ => rfl
  simp only [Union.wellFormed, hnames, hvars, htags, Bool.and_true, Bool.true_and]
  simpa using h.tags_ne_nil

theorem Equation.Proper.wellFormed {equation : Equation} (h : equation.Proper) :
    equation.wellFormed = true := by
  have hparams : equation.params.all Binding.wellFormed = true :=
    List.all_eq_true.mpr fun param hparam => (h.params param hparam).type.wellFormed
  simp only [Equation.wellFormed, hparams, h.result.wellFormed, h.body.wellFormed, Bool.and_self]

/-- What is read is well-formed. -/
theorem Decl.Proper.wellFormed {decl : Decl} (h : decl.Proper) : decl.wellFormed = true := by
  cases h with
  | union h => exact h.wellFormed
  | @equation declared h =>
    unfold Grammar.declaration
    split
    · next hempty => simp [Decl.wellFormed, hempty, h.wellFormed]
    · next hparams => simp [Decl.wellFormed, hparams, h.wellFormed]

end Polyglot
