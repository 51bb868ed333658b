import Polyglot.Proofs.Expr.Acceptance
import Polyglot.Proofs.Expr.Proper
import Polyglot.Proofs.Expr.Survey
import Polyglot.Proofs.Token.Places
import Polyglot.Target

/-!
# Writing an expression and reading it again

An expression that was read from some text is proper, so it can be written, and what is written is
cut into its lexemes again. Whether they are read back is then a matter of the grammar alone.

Results:
1. `proper_of_ofText`: what is read from a text is proper.
2. `ofText_expr_iff_unchained`: the written text is read back as the same expression exactly if no
   comparison has a comparison as its right operand, and is malformed otherwise.
-/

namespace Polyglot.Grammar

open Polyglot.Parser Polyglot.Expr

theorem derives_of_ofText {text : String} {tokens : Scan} (hscan : scan text 1 = .ok tokens)
    {e : Expr} (h : Expr.ofText text = .ok e) :
    Derives .expr (tokens.tokens.map Token.lexeme) e := by
  rw [ofText_eq_outcome hscan] at h
  obtain ⟨after, hok⟩ := eq_ok_of_outcome h
  obtain ⟨ts, _, rfl, hts⟩ := (reads_whole _).of_ok hok
  exact hts

/-- Behind the tokens there is only one way to fail. -/
theorem ofText_of_not_derives {text : String} {tokens : Scan} (hscan : scan text 1 = .ok tokens)
    (h : ∀ e, ¬ Derives .expr (tokens.tokens.map Token.lexeme) e) :
    ∃ d, Expr.ofText text = .error d ∧ d.area = .expression := by
  cases hresult : Expr.ofText text with
  | ok e => exact absurd (derives_of_ofText hscan hresult) (h e)
  | error d =>
    rw [ofText_eq_outcome hscan] at hresult
    obtain ⟨after, herror⟩ := eq_error_of_outcome hresult
    exact ⟨d, rfl, ((reads_whole _).of_error herror).1⟩

theorem proper_of_ofText {source : String} {e : Expr} (h : Expr.ofText source = .ok e) :
    e.Proper := by
  obtain ⟨tokens, hscan, _⟩ := exists_of_bind_eq_ok h
  exact derives_proper (derives_of_ofText hscan h) (valid_of_scan hscan)

/-- An expression that was read can be written, at any indentation. The text is read as the same
expression exactly if no comparison in it has a comparison as its right operand. Otherwise it is a
malformed expression; it is never read as another one. -/
theorem ofText_expr_iff_unchained {source : String} {e : Expr} (h : Expr.ofText source = .ok e) :
    ∃ text, (∀ count, Target.derw.dialect.expr e count = .ok text count) ∧
      (Expr.ofText text = .ok e ↔ e.unchained = true) ∧
      (e.unchained = false → ∃ d, Expr.ofText text = .error d ∧ d.area = .expression) ∧
      ∀ e', Expr.ofText text = .ok e' → e' = e := by
  have hproper := proper_of_ofText h
  obtain ⟨text, hyields, hspelled⟩ := render_spelled hproper
  obtain ⟨tokens, hscan, hlexemes, _⟩ := scan_spelled hspelled 1
  have hgood : e.unchained = true → Expr.ofText text = .ok e := by
    intro hunchained
    refine ofText_of_derives hscan ?_
    rw [hlexemes]
    exact derives_expr_of_level (derives_lexemes hproper hunchained)
  have hbad : e.unchained = false → ∃ d, Expr.ofText text = .error d ∧ d.area = .expression := by
    intro hchained
    refine ofText_of_not_derives hscan fun e' => ?_
    rw [hlexemes]
    exact not_derives_lexemes hproper hchained e'
  have hsame : ∀ e', Expr.ofText text = .ok e' → e.unchained = true ∧ e' = e := by
    intro e' he'
    cases hunchained : e.unchained with
    | true =>
      rw [hgood hunchained] at he'
      exact ⟨rfl, (Except.ok.inj he').symm⟩
    | false =>
      obtain ⟨d, herror, _⟩ := hbad hunchained
      rw [herror] at he'
      cases he'
  exact ⟨text, hyields, ⟨fun h => (hsame e h).1, hgood⟩, hbad, fun e' he' => (hsame e' he').2⟩

/-- Parentheses around the right comparison are read, but not written. -/
theorem ofText_chained_parens :
    Expr.ofText "a == (b < c)" =
        .ok (.binary .eq (.value "a") (.binary .lt (.value "b") (.value "c"))) ∧
      Target.derw.dialect.expr
        (.binary .eq (.value "a") (.binary .lt (.value "b") (.value "c"))) 0 =
          .ok "a == b < c" 0 ∧
      ∃ d, Expr.ofText "a == b < c" = .error d ∧ d.area = .expression := by
  have hsource : Expr.ofText "a == (b < c)" =
      .ok (.binary .eq (.value "a") (.binary .lt (.value "b") (.value "c"))) := by
    cbv
  have htext : Target.derw.dialect.expr
      (.binary .eq (.value "a") (.binary .lt (.value "b") (.value "c"))) 0 =
        .ok "a == b < c" 0 := by
    rfl
  obtain ⟨text, hwritten, _, hchained, _⟩ := ofText_expr_iff_unchained hsource
  have hsame : text = "a == b < c" := by
    have hboth := hwritten 0
    rw [htext] at hboth
    cases hboth
    rfl
  subst hsame
  exact ⟨hsource, htext, hchained (by decide)⟩

end Polyglot.Grammar
