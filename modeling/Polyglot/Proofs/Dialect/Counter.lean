import Polyglot.Dialect.Session
import Polyglot.Proofs.Dialect.Plan
import Polyglot.Target

/-!
# The indent counter

A renderer remembers nothing but its indent counter. The counter is raised and lowered around the
parts of a text that stand further in, and a failure inside leaves it raised (`Render.Balanced`), so
a history of requests can leave it anywhere. None of that reaches the next program: emitting starts
at the left margin.

Results:
1. `answer_settles`: what every request of a session leaves in the counter.
2. `session_emit_fresh`: behind any history a program is answered as by a fresh renderer.
3. `session_emit_after_failure`: emitting itself does not leave the counter as it found it.
-/

namespace Polyglot

open Render

/-! ## Sessions -/

namespace Writing

/-- The counter that a request leaves if it succeeds. Emitting goes back to the left margin. -/
def Request.settled (count : Int) : Request → Int
  | .emit _ => 0
  | .setIndent given => given
  | _ => count

/-- The counter behind a request: settled if it succeeds, and no lower if it fails. -/
theorem answer_settles (dialect : Dialect) (request : Request) (count : Int) :
    (∀ {text after}, answer dialect request count = .ok text after →
        after = request.settled count) ∧
      ∀ {error after}, answer dialect request count = .error error after →
        request.settled count ≤ after := by
  have hpart : ∀ {part : Render (Option String)}, part.Balanced → ∀ start,
      (∀ {text after}, part start = .ok text after → after = start) ∧
        ∀ {error after}, part start = .error error after → start ≤ after :=
    fun h start => ⟨h.ok, h.error⟩
  cases request with
  | emit body => exact hpart ((Dialect.decls_balanced body).map _ |>.map some) 0
  | decl decl => exact hpart ((Dialect.decl_balanced decl).map some) count
  | expr e => exact hpart ((Dialect.render_balanced e .inline).map some) count
  | argument e => exact hpart (((Dialect.render_balanced e .inline).map _).map some) count
  | body e => exact hpart ((Dialect.render_balanced e .ownLines).map some) count
  | operand side child parent =>
    exact hpart (((Dialect.render_balanced child .inline).map _).map some) count
  | operator name => exact hpart ((balanced_lift _).map some) count
  | type nested type => exact hpart ((balanced_lift _).map some) count
  | ascription type => exact hpart ((balanced_lift _).map some) count
  | indentation => exact hpart (balanced_indentation.map some) count
  | setIndent given => exact hpart (balanced_pure none) given

/-- Emitting does not look at the counter that it finds. -/
theorem answer_emit (dialect : Dialect) (body : List Decl) (count : Int) :
    answer dialect (.emit body) count = answer dialect (.emit body) 0 :=
  rfl

/-- A session goes on from the counter that its history leaves. -/
theorem exists_session_append (dialect : Dialect) (count : Int) (history : List Request) :
    ∃ after, ∀ rest, session dialect count (history ++ rest) =
      session dialect count history ++ session dialect after rest := by
  induction history generalizing count with
  | nil => exact ⟨count, fun rest => rfl⟩
  | cons request history ih =>
    cases hanswer : answer dialect request count with
    | ok text mid =>
      obtain ⟨after, hafter⟩ := ih mid
      refine ⟨after, fun rest => ?_⟩
      simp only [List.cons_append, session, hanswer, hafter]
    | error error mid =>
      obtain ⟨after, hafter⟩ := ih mid
      refine ⟨after, fun rest => ?_⟩
      simp only [List.cons_append, session, hanswer, hafter]

/-- Whatever was asked before, a program is answered as by a fresh renderer, with the same text or
the same failure. A request that succeeds leaves the counter as it found it, except that emitting
leaves it at the left margin and that setting it sets it. -/
theorem session_emit_fresh (target : Target) :
    (∀ history body, session target.dialect 0 (history ++ [.emit body]) =
        session target.dialect 0 history ++ session target.dialect 0 [.emit body]) ∧
      ∀ request count text after, answer target.dialect request count = .ok text after →
        after = request.settled count := by
  constructor
  · intro history body
    obtain ⟨after, hafter⟩ := exists_session_append target.dialect 0 history
    rw [hafter, session, session, answer_emit]
  · intro request count text after hanswer
    exact (answer_settles target.dialect request count).1 hanswer

/-- The failure inside two functions leaves the counter at two, and the next program starts at the
left margin; a function that is rendered at two leaves the counter there. -/
theorem session_emit_fresh_raised :
    session Target.js.dialect 0
        [.expr (.lambda ["x"] (.lambda ["y"] (.unknown "Mystery"))),
          .emit [.const ⟨"f", [], .any, .value "1"⟩]] =
        (.error (.unknownExpr "Mystery"), 2) ::
          session Target.js.dialect 0 [.emit [.const ⟨"f", [], .any, .value "1"⟩]] ∧
      ∃ text after, answer Target.js.dialect (.expr (.lambda ["x"] (.value "x"))) 2 =
        .ok text after ∧ after = 2 := by
  have hanswer : ∃ text after, answer Target.js.dialect (.expr (.lambda ["x"] (.value "x"))) 2 =
      .ok text after := ⟨_, _, rfl⟩
  obtain ⟨text, after, hanswer⟩ := hanswer
  refine ⟨?_, text, after, hanswer, (session_emit_fresh .js).2 _ _ _ _ hanswer⟩
  exact (session_emit_fresh .js).1 [.expr (.lambda ["x"] (.lambda ["y"] (.unknown "Mystery")))] _

/-- Emitting succeeds where the counter was left at one, and leaves it at zero: it is a rendering
that does not leave the counter as it found it. -/
theorem session_emit_after_failure :
    session Target.js.dialect 0
        [.decl (.function ⟨"f", [], .any, .unknown "Mystery"⟩),
          .emit [.const ⟨"f", [], .any, .value "1"⟩]] =
        [(.error (.unknownExpr "Mystery"), 1), (.ok (some "const f = 1;"), 0)] ∧
      ¬ ∀ request count text after, (∀ given, request ≠ .setIndent given) →
        answer Target.js.dialect request count = .ok text after → after = count := by
  refine ⟨rfl, fun hkept => ?_⟩
  have hone : (0 : Int) = 1 :=
    hkept (.emit [.const ⟨"f", [], .any, .value "1"⟩]) 1 (some "const f = 1;") 0
      (fun given heq => by cases heq) rfl
  cases hone

end Writing

end Polyglot
