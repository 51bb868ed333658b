import Mathlib
import Polyglot.Cursor

/-!
# Parsers and the places of tokens

A parser looks at the place of a token only to see whether it starts a line, and otherwise hands
places on to its diagnostics. So two cursors with the same lexemes, at places that start a line on
both sides or on neither, are read alike: with the same value, or with the same complaint at places
that correspond. `Couples` states this of two parsers, `Steady` of a parser and itself; both pass
through every combinator.
-/

namespace Polyglot

/-- Tokens that parsers cannot tell apart, at places related by `R`. -/
structure Token.Alike (R : Position → Position → Prop) (t t' : Token) : Prop where
  lexeme : t.lexeme = t'.lexeme
  pos : R t.pos t'.pos
  lineStart : t.pos.col = 1 ↔ t'.pos.col = 1

/-- The same complaint, at places related by `R`. -/
structure Diagnostic.Alike (R : Position → Position → Prop) (d d' : Diagnostic) : Prop where
  area : d.area = d'.area
  problem : d.problem = d'.problem
  pos : R d.pos d'.pos

/-! ## Cursors -/

structure Cursor.Alike (R : Position → Position → Prop) (c c' : Cursor) : Prop where
  past : List.Forall₂ (Token.Alike R) c.past c'.past
  rest : List.Forall₂ (Token.Alike R) c.rest c'.rest
  finish : R c.finish c'.finish

namespace Cursor.Alike

variable {R : Position → Position → Prop} {c c' : Cursor}

theorem lexeme? (h : c.Alike R c') : c.lexeme? = c'.lexeme? := by
  obtain ⟨past, rest, finish⟩ := c
  obtain ⟨past', rest', finish'⟩ := c'
  obtain ⟨_, hrest, _⟩ := h
  cases hrest with
  | nil => rfl
  | cons ht _ => exact congrArg some ht.lexeme

theorem mark_pos (h : c.Alike R c') : R c.mark.pos c'.mark.pos := by
  obtain ⟨past, rest, finish⟩ := c
  obtain ⟨past', rest', finish'⟩ := c'
  obtain ⟨_, hrest, hfinish⟩ := h
  cases hrest with
  | nil => exact hfinish
  | cons ht _ => exact ht.pos

theorem next (h : c.Alike R c') : c.next.Alike R c'.next := by
  obtain ⟨past, rest, finish⟩ := c
  obtain ⟨past', rest', finish'⟩ := c'
  obtain ⟨hpast, hrest, hfinish⟩ := h
  cases hrest with
  | nil => exact ⟨hpast, .nil, hfinish⟩
  | cons ht hts => exact ⟨.cons ht hpast, hts, hfinish⟩

theorem atLineStart (h : c.Alike R c') : c.atLineStart = c'.atLineStart := by
  obtain ⟨past, rest, finish⟩ := c
  obtain ⟨past', rest', finish'⟩ := c'
  obtain ⟨hpast, hrest, _⟩ := h
  cases hrest with
  | nil => rfl
  | cons ht _ =>
    have hempty : past.isEmpty = past'.isEmpty := by cases hpast <;> rfl
    simp only [Cursor.atLineStart, hempty]
    rw [Bool.eq_iff_iff, Bool.and_eq_true, Bool.and_eq_true, beq_iff_eq, beq_iff_eq, ht.lineStart]

end Cursor.Alike

/-! ## Outcomes -/

/-- Two outcomes of parsers: both succeed with values related by `V`, or both fail alike. -/
inductive Agree (R : Position → Position → Prop) {α β : Type} (V : α → β → Prop) :
    EStateM.Result Diagnostic Cursor α → EStateM.Result Diagnostic Cursor β → Prop
  | ok {a : α} {b : β} {c c' : Cursor} : V a b → c.Alike R c' → Agree R V (.ok a c) (.ok b c')
  | error {d d' : Diagnostic} {c c' : Cursor} : d.Alike R d' → c.Alike R c' →
      Agree R V (.error d c) (.error d' c')

namespace Parser

variable {R : Position → Position → Prop} {α β γ δ : Type} {V : α → β → Prop} {W : γ → δ → Prop}

/-- The parsers agree from cursors that are alike. -/
def Couples (R : Position → Position → Prop) (V : α → β → Prop) (p : Parser α) (q : Parser β) :
    Prop :=
  ∀ ⦃c c' : Cursor⦄, c.Alike R c' → Agree R V (p c) (q c')

/-- The parser yields the same from cursors that are alike. -/
abbrev Steady (R : Position → Position → Prop) (p : Parser α) : Prop :=
  Couples R Eq p p

theorem couples_pure {a : α} {b : β} (h : V a b) :
    Couples R V (pure a : Parser α) (pure b : Parser β) :=
  fun _ _ hc => .ok h hc

theorem Couples.bind {p : Parser α} {q : Parser β} {f : α → Parser γ} {g : β → Parser δ}
    (h : Couples R V p q) (hf : ∀ a b, V a b → Couples R W (f a) (g b)) :
    Couples R W (p >>= f) (q >>= g) := by
  intro c c' hc
  simp only [Bind.bind, EStateM.bind]
  have hagree := h hc
  generalize p c = result at hagree ⊢
  generalize q c' = result' at hagree ⊢
  cases hagree with
  | ok hV hc' => exact hf _ _ hV hc'
  | error hd hc' => exact .error hd hc'

theorem couples_throw {d d' : Diagnostic} (h : d.Alike R d') :
    Couples R V (throw d : Parser α) (throw d' : Parser β) :=
  fun _ _ hc => .error h hc

theorem couples_get : Couples R (Cursor.Alike R) (get : Parser Cursor) get :=
  fun _ _ hc => .ok hc hc

theorem couples_expectIdent (area : Area) :
    Couples R (fun a b => a.1 = b.1 ∧ R a.2 b.2) (expectIdent area) (expectIdent area) := by
  rintro ⟨past, rest, finish⟩ ⟨past', rest', finish'⟩ hc
  have hfail : ∀ {l : Option Lexeme}, Diagnostic.Alike R
      ⟨area, .expectedIdent l, (⟨past, rest, finish⟩ : Cursor).mark.pos⟩
      ⟨area, .expectedIdent l, (⟨past', rest', finish'⟩ : Cursor).mark.pos⟩ :=
    ⟨rfl, rfl, hc.mark_pos⟩
  obtain ⟨hpast, hrest, hfinish⟩ := hc
  cases hrest with
  | nil => exact .error hfail ⟨hpast, .nil, hfinish⟩
  | @cons t t' ts ts' ht hts =>
    obtain ⟨l, pos⟩ := t
    obtain ⟨l', pos'⟩ := t'
    obtain rfl : l = l' := ht.lexeme
    cases l with
    | ident name => exact .ok ⟨rfl, ht.pos⟩ ⟨.cons ht hpast, hts, hfinish⟩
    | _ => exact .error hfail ⟨hpast, .cons ht hts, hfinish⟩

/-! ## Steady parsers -/

/-- What follows a steady parser starts from one value. -/
theorem Steady.bind {p : Parser α} {f : α → Parser γ} {g : α → Parser δ} (h : p.Steady R)
    (hf : ∀ a, Couples R W (f a) (g a)) : Couples R W (p >>= f) (p >>= g) :=
  Couples.bind h fun a _ heq => heq ▸ hf a

theorem steady_pure (a : α) : (pure a : Parser α).Steady R :=
  couples_pure rfl

theorem steady_fail (area : Area) (problem : Option Lexeme → Problem) :
    (fail area problem : Parser α).Steady R := by
  intro c c' hc
  exact .error ⟨rfl, congrArg problem hc.lexeme?, hc.mark_pos⟩ hc

theorem steady_peek : peek.Steady R :=
  fun _ _ hc => .ok hc.lexeme? hc

theorem steady_advance : advance.Steady R :=
  fun _ _ hc => .ok rfl hc.next

theorem steady_sees (lexeme : Lexeme) : (sees lexeme).Steady R :=
  fun _ _ hc => .ok (congrArg (· == some lexeme) hc.lexeme?) hc

/-- A choice that does not depend on places. -/
theorem steady_ite {p q : Parser α} (condition : Prop) [Decidable condition] (hp : p.Steady R)
    (hq : q.Steady R) : (if condition then p else q).Steady R := by
  split
  · exact hp
  · exact hq

theorem steady_expect (area : Area) (lexeme : Lexeme) : (expect area lexeme).Steady R :=
  (steady_sees lexeme).bind fun _ => steady_ite _ steady_advance (steady_fail area _)

theorem steady_expectEnd (area : Area) : (expectEnd area).Steady R := by
  rintro ⟨past, rest, finish⟩ ⟨past', rest', finish'⟩ hc
  have hfail := steady_fail (α := Unit) area .unexpected hc
  obtain ⟨hpast, hrest, hfinish⟩ := hc
  cases hrest with
  | nil => exact .ok rfl ⟨hpast, .nil, hfinish⟩
  | cons _ _ => exact hfail

/-! ### Loops -/

theorem steady_iterate {body : Parser α → Parser α}
    (h : ∀ p, p.Steady R → (body p).Steady R) (depth : Nat) : (iterate body depth).Steady R := by
  induction depth with
  | zero => exact steady_fail .general _
  | succ depth ih => exact h _ ih

theorem steady_fix {body : Parser α → Parser α} (h : ∀ p, p.Steady R → (body p).Steady R) :
    (fix body).Steady R := by
  intro c c' hc
  have hlength : c.rest.length = c'.rest.length := hc.rest.length_eq
  rw [fix, fix, hlength]
  exact steady_iterate h _ hc

theorem steady_many {continues : Cursor → Bool} {item : Parser α}
    (hgo : ∀ {c c' : Cursor}, c.Alike R c' → continues c = continues c') (h : item.Steady R) :
    (many continues item).Steady R := by
  refine steady_fix fun more hmore => couples_get.bind fun c c' hc => ?_
  rw [hgo hc]
  exact steady_ite _ (h.bind fun _ => hmore.bind fun _ => steady_pure _) (steady_pure _)

theorem steady_manyAfter (separator : Lexeme) {item : Parser α} (h : item.Steady R) :
    (manyAfter separator item).Steady R := by
  refine steady_many (fun hc => ?_) (steady_advance.bind fun _ => h)
  rw [hc.lexeme?]

theorem steady_enclosed (area : Area) (close : Symbol) {item : Parser α} (h : item.Steady R) :
    (enclosed area close item).Steady R := by
  refine (steady_sees _).bind fun _ => steady_ite _ ?_ ?_
  · exact steady_advance.bind fun _ => steady_pure _
  · exact h.bind fun _ => (steady_manyAfter _ h).bind fun _ =>
      (steady_expect area _).bind fun _ => steady_pure _

/-- What follows a name may hand its place on. -/
theorem steady_ident (area : Area) {f : String × Position → Parser α}
    (hf : ∀ name pos pos', R pos pos' → Couples R Eq (f (name, pos)) (f (name, pos'))) :
    (expectIdent area >>= f).Steady R := by
  refine (couples_expectIdent area).bind fun a b hab => ?_
  obtain ⟨name, pos⟩ := a
  obtain ⟨name', pos'⟩ := b
  obtain ⟨rfl, hpos⟩ := hab
  exact hf name pos pos' hpos

theorem steady_names (area : Area) : (names area).Steady R := by
  refine steady_many (fun hc => ?_) (steady_ident area fun name _ _ _ => steady_pure name)
  rw [hc.lexeme?]

/-! ## Outcomes -/

/-- What a steady parser makes of two texts with tokens that are alike. -/
theorem Steady.outcome {p : Parser α} (h : p.Steady R) (found found' : Scan)
    (htokens : List.Forall₂ (Token.Alike R) found.tokens found'.tokens)
    (hfinish : R found.finish found'.finish) :
    (∃ a, p.outcome (Cursor.ofScan found) = .ok a ∧ p.outcome (Cursor.ofScan found') = .ok a) ∨
      ∃ d d', p.outcome (Cursor.ofScan found) = .error d ∧
        p.outcome (Cursor.ofScan found') = .error d' ∧ d.Alike R d' := by
  have hcursor : (Cursor.ofScan found).Alike R (Cursor.ofScan found') :=
    ⟨.nil, htokens, hfinish⟩
  have hagree := h hcursor
  unfold Parser.outcome
  generalize p (Cursor.ofScan found) = result at hagree ⊢
  generalize p (Cursor.ofScan found') = result' at hagree ⊢
  cases hagree with
  | ok heq _ => exact .inl ⟨_, rfl, congrArg Except.ok heq.symm⟩
  | error hd _ => exact .inr ⟨_, _, rfl, rfl, hd⟩

end Parser

end Polyglot
