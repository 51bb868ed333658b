import Mathlib
import Polyglot.Proofs.Program.Totality
import Polyglot.Proofs.Scope.FirstIssue

/-!
# Nodes that no dialect can render

A node of an unknown kind stops every rendering that comes to it, and all dialects come to the same
one first (`render_meets`). Here the first one is told by its place: a path leads from an expression
to each of its parts, and paths are compared from left to right.

Results:
1. `findsFirst_firstUnknown`: the search for the first unknown node, by places.
2. `expr_stops_at_first_unknown`: which expressions are rendered, and what stops the others.
-/

namespace Polyglot

namespace Expr

/-! ## Parts of an expression -/

/-- The node at the end of a path, each number of which is the number of a part. The empty path ends
at the expression itself. -/
def at? : Expr → List Nat → Option Expr
  | e, [] => some e
  | e, i :: path => e.children[i]?.bind fun part => part.at? path

/-! ## The first unknown node -/

/-- The search ends at the unknown node with the first path, or with nothing if there is none. -/
theorem findsFirst_firstUnknown (e : Expr) :
    FindsFirst (fun path kind => e.at? path = some (.unknown kind)) e.firstUnknown := by
  induction e using induction_children with
  | h e ih =>
  by_cases hunknown : ∃ kind, e = .unknown kind
  · obtain ⟨kind, rfl⟩ := hunknown
    exact ⟨[], rfl, fun _ _ _ => trivial⟩
  · rw [firstUnknown_eq fun kind heq => hunknown ⟨kind, heq⟩]
    refine (findsFirst_findSome? ih).congr fun place kind => ?_
    cases place with
    | nil =>
      refine iff_of_false ?_ fun heq => hunknown ⟨kind, Option.some.inj heq⟩
      rintro ⟨_, _, _, _, hplace, _⟩
      cases hplace
    | cons i path =>
      rw [at?, Option.bind_eq_some_iff]
      constructor
      · rintro ⟨_, part, _, hpart, ⟨⟩, hfound⟩
        exact ⟨part, hpart, hfound⟩
      · rintro ⟨part, hpart, hfound⟩
        exact ⟨i, part, path, hpart, rfl, hfound⟩

end Expr

open Render

/-! ## Targets -/

/-- An expression without unknown nodes is rendered for all four targets, at any indent. Any other
expression is rendered for none of them: each stops at the unknown node with the first path, and
names its kind. -/
theorem expr_stops_at_first_unknown (e : Expr) :
    ((∀ path kind, e.at? path ≠ some (.unknown kind)) ∧
        ∀ (target : Target) (count : Int), ∃ text, target.dialect.expr e count = .ok text count) ∨
      ∃ path kind, e.at? path = some (.unknown kind) ∧
        (∀ path' kind', e.at? path' = some (.unknown kind') → NoLater path path') ∧
        (RenderError.unknownExpr kind).message = "unhandled expression kind: " ++ kind ∧
        ∀ (target : Target) (count : Int),
          ∃ after, target.dialect.expr e count = .error (.unknownExpr kind) after := by
  have hmeets : ∀ (target : Target) (count : Int),
      Meets e.firstUnknown ((target.dialect.expr e).outcome count) := by
    intro target
    obtain ⟨style, hdialect, hstyle⟩ := target.dialect_decided
    rw [hdialect]
    exact render_meets hstyle e .inline
  have hfirst := e.findsFirst_firstUnknown
  cases hfound : e.firstUnknown with
  | none =>
    rw [hfound] at hmeets hfirst
    refine .inl ⟨hfirst, fun target count => ?_⟩
    obtain ⟨text, htext⟩ := hmeets target count
    exact ⟨text, (Dialect.render_balanced e .inline).eq_ok htext⟩
  | some kind =>
    rw [hfound] at hmeets hfirst
    obtain ⟨path, hnode, hpath⟩ := hfirst
    refine .inr ⟨path, kind, hnode, hpath, rfl, fun target count => ?_⟩
    obtain ⟨after, hafter⟩ := hmeets target count
    exact ⟨after, eq_error_of_outcome hafter⟩

-- the first one stands in the body of a lambda, which only the scripts put on lines of its own
example :
    Expr.firstUnknown (.call "f" [.lambda ["x"] (.cond (.value "x") (.unknown "A") (.unknown "B")),
      .unknown "C"]) = some "A" := by
  rfl

end Polyglot
