import Polyglot.Proofs.Dialect.Totality
import Polyglot.Proofs.Expr.RoundTrip
import Polyglot.Proofs.Program.Totality

/-!
# Chains of operators

Operands with operators between them are read into a tree that has five levels and nests to the
right on each of them. A tree like this never needs parentheses around an operand: on the left
stands what binds tighter, on the right what binds at least as tightly. So every target writes the
chain in the order in which it was read.

Results:
1. `chained_of_derives`: a phrase of an operator level is a chain of applications, and its tree is
   one of their nestings.
2. `row_unique`: there is only one way to cut lexemes into a chain of applications.
3. `expr_nests`: a nesting is written operand by operand, with the operators between them.
4. `expr_chain`: so a chain of operands without parentheses is written in source order.
-/

namespace Polyglot.Grammar

open Polyglot.Parser Polyglot.Expr

/-! ## Chains of lexemes -/

/-- Operands with an operator between each two of them. -/
inductive Row (operand : List Lexeme → Expr → Prop) :
    List Lexeme → Expr → List (BinaryOp × Expr) → Prop
  | one {ls : List Lexeme} {e : Expr} : operand ls e → Row operand ls e []
  | more {ls ms : List Lexeme} {e next : Expr} (op : BinaryOp) {rest : List (BinaryOp × Expr)} :
      operand ls e → Row operand ms next rest →
      Row operand (ls ++ .symbol op.symbol :: ms) e ((op, next) :: rest)

/-- An application that does not stand in parentheses: a name, a literal, a call, a tag, a list or a
record. -/
structure IsBare (ls : List Lexeme) (e : Expr) : Prop where
  derives : Derives .application ls e
  head_ne : ls.head? ≠ some (.symbol .openParen)

theorem Row.append {operand : List Lexeme → Expr → Prop} {ls ms : List Lexeme}
    {first next : Expr} {rest others : List (BinaryOp × Expr)} (op : BinaryOp)
    (h : Row operand ls first rest) (h' : Row operand ms next others) :
    Row operand (ls ++ .symbol op.symbol :: ms) first (rest ++ (op, next) :: others) := by
  induction h with
  | one hoperand => exact .more op hoperand h'
  | more op' hoperand _ ih =>
    rw [List.append_assoc, List.cons_append]
    exact .more op' hoperand ih

theorem Row.mono {operand operand' : List Lexeme → Expr → Prop} {ls : List Lexeme} {first : Expr}
    {rest : List (BinaryOp × Expr)} (h : Row operand ls first rest)
    (himp : ∀ {ls e}, operand ls e → operand' ls e) : Row operand' ls first rest := by
  induction h with
  | one hoperand => exact .one (himp hoperand)
  | more op hoperand _ ih => exact .more op (himp hoperand) ih

/-- Every operand is the tree of a part of the lexemes. -/
theorem Row.exists_of_mem {operand : List Lexeme → Expr → Prop} {ls : List Lexeme} {first : Expr}
    {rest : List (BinaryOp × Expr)} (h : Row operand ls first rest) {e : Expr}
    (he : e ∈ first :: rest.map Prod.snd) : ∃ us, us <:+: ls ∧ operand us e := by
  induction h with
  | @one ls first hfirst =>
    rw [List.mem_singleton.mp he]
    exact ⟨ls, List.infix_rfl, hfirst⟩
  | @more ls ms first next op rest hfirst _ ih =>
    rcases List.mem_cons.mp he with rfl | he
    · exact ⟨ls, (List.prefix_append _ _).isInfix, hfirst⟩
    · obtain ⟨us, hpart, hus⟩ := ih he
      refine ⟨us, hpart.trans ?_, hus⟩
      exact ((List.suffix_cons _ ms).trans (List.suffix_append ls _)).isInfix

/-- A chain starts like its first operand. -/
theorem Row.opens {ls : List Lexeme} {first : Expr} {rest : List (BinaryOp × Expr)}
    (h : Row (Derives .application) ls first rest) :
    ∃ l ms, ls = l :: ms ∧ Opens .application l := by
  cases h with
  | one hfirst => exact derives_opens hfirst
  | more _ hfirst _ =>
    obtain ⟨l, ms, rfl, hopens⟩ := derives_opens hfirst
    exact ⟨l, _, rfl, hopens⟩

/-! ## Cutting lexemes into a chain -/

theorem symbol_injective {op op' : BinaryOp} (h : op.symbol = op'.symbol) : op = op' := by
  cases op <;> cases op' <;> first | rfl | cases h

theorem binding_operator (op : BinaryOp) : binding (some (.symbol op.symbol)) < 6 := by
  cases op <;> decide

/-- An application ends before any lexeme that opens no argument, so the lexemes determine where it
ends. -/
theorem application_unique {ls ls' ms ms' : List Lexeme} {e e' : Expr}
    (heq : ls ++ ms = ls' ++ ms') (h : Derives .application ls e)
    (h' : Derives .application ls' e') (hms : binding ms.head? < 6)
    (hms' : binding ms'.head? < 6) : ls = ls' ∧ e = e' ∧ ms = ms' := by
  have haccepts : ∀ {ts rest : List Token} {e : Expr}, Phrase .application ts e →
      Closes 6 rest → (applicationWith expr).Accepts [] ts e rest := fun hphrase hrest =>
    accepts_application (fun h _ hrest => accepts_expr h hrest) hphrase (Nat.le_refl _) hrest
  -- the parser looks at tokens, whatever their places are
  obtain ⟨ts, hts⟩ : ∃ ts : List Token, ts.map Token.lexeme = ls ++ ms := by
    refine ⟨(ls ++ ms).map fun l => ⟨l, ⟨0, 0⟩⟩, ?_⟩
    rw [List.map_map]
    exact List.map_id _
  obtain ⟨us, vs, hsplit, rfl, rfl⟩ := List.map_eq_append_iff.mp hts
  obtain ⟨us', vs', hsplit', rfl, rfl⟩ := List.map_eq_append_iff.mp (hts.trans heq)
  rw [List.head?_map] at hms hms'
  have hread := haccepts h hms ⟨0, 0⟩
  rw [← hsplit, hsplit', haccepts h' hms' ⟨0, 0⟩] at hread
  injection hread with htree hcursor
  injection hcursor with _ hrest
  subst htree hrest
  rw [List.append_cancel_right (hsplit.symm.trans hsplit')]
  exact ⟨rfl, rfl, rfl⟩

/-- There is only one way to cut lexemes into a chain of applications. -/
theorem row_unique {ls : List Lexeme} {first first' : Expr} {rest rest' : List (BinaryOp × Expr)}
    (h : Row (Derives .application) ls first rest)
    (h' : Row (Derives .application) ls first' rest') : first = first' ∧ rest = rest' := by
  have hend : binding ([] : List Lexeme).head? < 6 := by decide
  induction h generalizing first' rest' with
  | @one ls e he =>
    generalize hls : ls = ls' at h'
    rw [← List.append_nil ls] at hls
    cases h' with
    | one he' =>
      rw [← List.append_nil ls'] at hls
      obtain ⟨_, rfl, _⟩ := application_unique hls he he' hend hend
      exact ⟨rfl, rfl⟩
    | @more _ _ _ _ op _ he' _ =>
      obtain ⟨_, _, hnil⟩ := application_unique hls he he' hend (binding_operator op)
      cases hnil
  | @more ls ms e next op rest he _ ih =>
    generalize hls : ls ++ .symbol op.symbol :: ms = ls' at h'
    cases h' with
    | one he' =>
      rw [← List.append_nil ls'] at hls
      obtain ⟨_, _, hnil⟩ := application_unique hls he he' (binding_operator op) hend
      cases hnil
    | @more _ _ _ _ op' _ he' h' =>
      obtain ⟨_, rfl, hms⟩ := application_unique hls he he' (binding_operator op)
        (binding_operator op')
      obtain ⟨hop, rfl⟩ := List.cons_eq_cons.mp hms
      obtain rfl : op = op' := symbol_injective (Lexeme.symbol.inj hop)
      obtain ⟨rfl, rfl⟩ := ih h'
      exact ⟨rfl, rfl⟩

/-! ## Nestings -/

/-- The trees that a chain makes if what binds with at least `level` nests to the right. -/
inductive Nests : Nat → Expr → Expr → List (BinaryOp × Expr) → Prop
  | operand {level : Nat} {e : Expr} : Nests level e e []
  | binary {level : Nat} {op : BinaryOp} {left right first next : Expr}
      {rest others : List (BinaryOp × Expr)} : level ≤ op.precedence →
      Nests (op.precedence + 1) left first rest → Nests op.precedence right next others →
      Nests level (.binary op left right) first (rest ++ (op, next) :: others)

theorem Nests.mono {level level' : Nat} {e first : Expr} {rest : List (BinaryOp × Expr)}
    (h : Nests level e first rest) (hle : level' ≤ level) : Nests level' e first rest := by
  cases h with
  | operand => exact .operand
  | binary hlevel hleft hright => exact .binary (Nat.le_trans hle hlevel) hleft hright

/-- The lexemes are a chain of applications, and the tree is one of their nestings. -/
def Chained (level : Nat) (ls : List Lexeme) (e : Expr) : Prop :=
  ∃ first rest, Row (Derives .application) ls first rest ∧ Nests level e first rest

theorem Chained.mono {level level' : Nat} {ls : List Lexeme} {e : Expr} (h : Chained level ls e)
    (hle : level' ≤ level) : Chained level' ls e := by
  obtain ⟨first, rest, hrow, hnests⟩ := h
  exact ⟨first, rest, hrow, hnests.mono hle⟩

theorem chained_operand {level : Nat} {ls : List Lexeme} {e : Expr}
    (h : Derives .application ls e) : Chained level ls e :=
  ⟨e, [], .one h, .operand⟩

theorem Chained.binary {level : Nat} {op : BinaryOp} (hop : op.precedence = level)
    {ls ms : List Lexeme} {left right : Expr} (hleft : Chained (level + 1) ls left)
    (hright : Chained level ms right) :
    Chained level (ls ++ .symbol op.symbol :: ms) (.binary op left right) := by
  subst hop
  obtain ⟨first, rest, hrow, hnests⟩ := hleft
  obtain ⟨next, others, hrow', hnests'⟩ := hright
  exact ⟨first, _, hrow.append op hrow', .binary (Nat.le_refl _) hnests hnests'⟩

/-- How tightly the phrases of an operator level bind. Other phrases have no level. -/
def Rule.floor : Rule → Nat
  | .or => 1
  | .and => 2
  | .compare => 3
  | .sum => 4
  | .product => 5
  | .application => 6
  | .expr | .atom | .primary => 0

/-- A phrase of an operator level is a chain of applications. -/
theorem chained_of_derives {rule : Rule} {ls : List Lexeme} {e : Expr} (h : Derives rule ls e) :
    0 < rule.floor → Chained rule.floor ls e := by
  refine derives_induction
    (motive := fun rule ls e => 0 < rule.floor → Chained rule.floor ls e)
    (fun {rule ls e} h ih hfloor => ?_) h
  by_cases hrule : rule = .application
  · subst hrule
    exact chained_operand h
  cases h with
  | orOne h | andOne h | compareOne h | sumOne h | productOne h =>
    exact (ih h (.inr ⟨rfl, by decide⟩) (by decide)).mono (by decide)
  | orMore hleft hright =>
    exact .binary (show BinaryOp.or.precedence = 1 from rfl)
      (ih hleft (.inl (by simp)) (by decide)) (ih hright (.inl (by grind)) (by decide))
  | andMore hleft hright =>
    exact .binary (show BinaryOp.and.precedence = 2 from rfl)
      (ih hleft (.inl (by simp)) (by decide)) (ih hright (.inl (by grind)) (by decide))
  | @compareTwo op _ _ _ _ hop hleft hright =>
    have hprecedence : ∀ op ∈ [BinaryOp.eq, .ne, .lt, .le, .gt, .ge], op.precedence = 3 := by decide
    -- both sides of a comparison are sums
    have hsum := (ih hright (.inl (by grind)) (by decide)).mono (Nat.le_succ 3)
    exact .binary (hprecedence op hop) (ih hleft (.inl (by simp)) (by decide)) hsum
  | @sumMore op _ _ _ _ hop hleft hright =>
    have hprecedence : ∀ op ∈ [BinaryOp.add, .sub], op.precedence = 4 := by decide
    exact .binary (hprecedence op hop) (ih hleft (.inl (by simp)) (by decide))
      (ih hright (.inl (by grind)) (by decide))
  | @productMore op _ _ _ _ hop hleft hright =>
    have hprecedence : ∀ op ∈ [BinaryOp.mul, .div], op.precedence = 5 := by decide
    exact .binary (hprecedence op hop) (ih hleft (.inl (by simp)) (by decide))
      (ih hright (.inl (by grind)) (by decide))
  | construct | constructWith | value | call | negative | operand => exact absurd rfl hrule
  | or | cond | lambda | name | argument | number | string | list | record | paren =>
    exact absurd hfloor (Nat.lt_irrefl 0)

/-- The tree of a chain nests the operands of the chain. -/
theorem nests_of_derives {ls : List Lexeme} {e first : Expr} {rest : List (BinaryOp × Expr)}
    (hrow : Row (Derives .application) ls first rest) (h : Derives .expr ls e) :
    Nests 1 e first rest := by
  obtain ⟨l, ms, hls, hopens⟩ := hrow.opens
  cases h with
  | cond =>
    obtain ⟨rfl, _⟩ := List.cons_eq_cons.mp hls
    rcases hopens with hopens | hopens <;> cases hopens
  | lambda =>
    obtain ⟨rfl, _⟩ := List.cons_eq_cons.mp hls
    rcases hopens with hopens | hopens <;> cases hopens
  | or h =>
    obtain ⟨first', rest', hrow', hnests⟩ := chained_of_derives h Nat.one_pos
    obtain ⟨rfl, rfl⟩ := row_unique hrow hrow'
    exact hnests

theorem IsBare.precedence_eq {ls : List Lexeme} {e : Expr} (h : IsBare ls e) :
    e.precedence = 10 := by
  obtain ⟨hderives, hhead⟩ := h
  cases hderives with
  | construct | constructWith | value | call | negative => rfl
  | operand h =>
    cases h with
    | paren _ => exact absurd rfl hhead
    | number | string | list | record => rfl

end Polyglot.Grammar

namespace Polyglot

open Polyglot.Grammar

namespace Dialect

/-! ## Writing a chain -/

/-- Operands and operators in a row, with a blank between each two of them. -/
def chainText (dialect : Dialect) (write : Expr → String) (first : Expr)
    (rest : List (BinaryOp × Expr)) : String :=
  " ".intercalate
    (write first :: rest.flatMap fun step => [dialect.operator step.1, write step.2])

variable {dialect : Dialect} {write : Expr → String} {count : Int}

theorem chainText_append (op : BinaryOp) (first next : Expr)
    (rest others : List (BinaryOp × Expr)) :
    dialect.chainText write first (rest ++ (op, next) :: others) =
      dialect.chainText write first rest ++ " " ++ dialect.operator op ++ " " ++
        dialect.chainText write next others := by
  rw [chainText, List.flatMap_append, List.flatMap_cons, List.cons_append, List.cons_append,
    List.nil_append, ← List.cons_append,
    String.intercalate_append_of_ne_nil (List.cons_ne_nil _ _) (List.cons_ne_nil _ _),
    String.intercalate_cons_cons]
  simp only [chainText, String.append_assoc]

theorem expr_binary {op : BinaryOp} {left right : Expr} {text text' : String}
    (hleft : dialect.expr left count = .ok text count)
    (hright : dialect.expr right count = .ok text' count) :
    dialect.expr (.binary op left right) count =
      .ok (operandText .left left op.precedence text ++ " " ++ dialect.operator op ++ " " ++
        operandText .right right op.precedence text') count :=
  render_ok rfl (.cons hleft (.cons hright .nil)) .nil rfl

/-- A nesting of operands that bind tighter than any operator is written without parentheses. -/
theorem expr_nests {level : Nat} {e first : Expr} {rest : List (BinaryOp × Expr)}
    (h : Nests level e first rest) (hlevel : level ≤ 10)
    (hoperands : ∀ operand ∈ first :: rest.map Prod.snd,
      operand.precedence = 10 ∧ dialect.expr operand count = .ok (write operand) count) :
    level ≤ e.precedence ∧
      dialect.expr e count = .ok (dialect.chainText write first rest) count := by
  induction h with
  | operand =>
    obtain ⟨hprecedence, htext⟩ := hoperands _ List.mem_cons_self
    rw [hprecedence]
    exact ⟨hlevel, htext⟩
  | @binary level op left right first next rest others hop _ _ ihleft ihright =>
    have hbound : op.precedence + 1 ≤ 10 := by
      cases op <;> decide
    rw [List.map_append, List.map_cons, ← List.cons_append, List.forall_mem_append] at hoperands
    obtain ⟨htighter, hleft⟩ := ihleft hbound hoperands.1
    obtain ⟨hatLeast, hright⟩ := ihright (Nat.le_of_succ_le hbound) hoperands.2
    have hnoLeft : needsParens .left left.precedence op.precedence = false := by
      rw [needsParens, if_neg (Nat.ne_of_gt htighter), decide_eq_false_iff_not]
      exact Nat.lt_asymm htighter
    have hnoRight : needsParens .right right.precedence op.precedence = false := by
      rw [needsParens]
      split
      · rfl
      · exact decide_eq_false (Nat.not_lt_of_le hatLeast)
    refine ⟨hop, ?_⟩
    rw [expr_binary hleft hright, operandText, operandText, hnoLeft, hnoRight, chainText_append]
    rfl

end Dialect

/-- A chain of operands without parentheses, if it is read at all, is written by every target in
source order: the operands as they are written alone, and the operators of the target between them,
with blanks around and no parentheses. -/
theorem expr_chain {source : String} {tokens : Scan} (hscan : scan source 1 = .ok tokens)
    {first : Expr} {rest : List (BinaryOp × Expr)}
    (hchain : Row IsBare (tokens.tokens.map Token.lexeme) first rest) {e : Expr}
    (h : Expr.ofText source = .ok e) (target : Target) (count : Int) :
    ∃ write : Expr → String,
      (∀ operand ∈ first :: rest.map Prod.snd,
        target.dialect.expr operand count = .ok (write operand) count) ∧
      target.dialect.expr e count = .ok (target.dialect.chainText write first rest) count := by
  obtain ⟨style, hdialect, hstyle⟩ := target.dialect_decided
  have hrow : Row (Derives .application) (tokens.tokens.map Token.lexeme) first rest :=
    hchain.mono fun hbare => hbare.derives
  have hnests : Nests 1 e first rest := nests_of_derives hrow (derives_of_ofText hscan h)
  have hwritten : ∀ operand ∈ first :: rest.map Prod.snd,
      ∃ text, target.dialect.expr operand count = .ok text count := by
    intro operand hoperand
    obtain ⟨us, hpart, hus⟩ := hrow.exists_of_mem hoperand
    have hproper := derives_proper hus ((valid_of_scan hscan).of_part hpart)
    rw [hdialect]
    exact render_succeeds hstyle operand .inline hproper.wellFormed count
  choose! write hwrite using hwritten
  refine ⟨write, hwrite, (Dialect.expr_nests hnests (by decide) fun operand hoperand => ?_).2⟩
  obtain ⟨us, _, hbare⟩ := hchain.exists_of_mem hoperand
  exact ⟨hbare.precedence_eq, hwrite operand hoperand⟩

/-- A chain over four levels, with a negative number, a call and a tag among its operands. -/
theorem expr_chain_levels :
    ∃ tokens e, scan "a - -1 * f x != b || C" 1 = .ok tokens ∧
      Row IsBare (tokens.tokens.map Token.lexeme) (.value "a")
        [(.sub, .value "-1"), (.mul, .call "f" [.value "x"]), (.ne, .value "b"),
          (.or, .construct "C" none [])] ∧
      Expr.ofText "a - -1 * f x != b || C" = .ok e ∧
      ∃ write : Expr → String,
        (∀ operand ∈ [.value "a", .value "-1", .call "f" [.value "x"], .value "b",
            .construct "C" none []],
          Target.js.dialect.expr operand 0 = .ok (write operand) 0) ∧
        Target.js.dialect.expr e 0 =
          .ok (Target.js.dialect.chainText write (.value "a")
            [(.sub, .value "-1"), (.mul, .call "f" [.value "x"]), (.ne, .value "b"),
              (.or, .construct "C" none [])]) 0 ∧
        Target.js.dialect.chainText write (.value "a")
          [(.sub, .value "-1"), (.mul, .call "f" [.value "x"]), (.ne, .value "b"),
            (.or, .construct "C" none [])] = "a - -1 * f(x) !== b || C(\x7b \x7d)" := by
  have hscan : scan "a - -1 * f x != b || C" 1 = .ok
      ⟨[⟨.ident "a", ⟨1, 1⟩⟩, ⟨.symbol .minus, ⟨1, 3⟩⟩, ⟨.symbol .minus, ⟨1, 5⟩⟩,
        ⟨.number "1", ⟨1, 6⟩⟩, ⟨.symbol .star, ⟨1, 8⟩⟩, ⟨.ident "f", ⟨1, 10⟩⟩,
        ⟨.ident "x", ⟨1, 12⟩⟩, ⟨.symbol .notEqual, ⟨1, 14⟩⟩, ⟨.ident "b", ⟨1, 17⟩⟩,
        ⟨.symbol .barBar, ⟨1, 19⟩⟩, ⟨.ident "C", ⟨1, 22⟩⟩], ⟨1, 23⟩⟩ := by
    cbv
  have htree : Expr.ofText "a - -1 * f x != b || C" = .ok (.binary .or
      (.binary .ne (.binary .sub (.value "a") (.binary .mul (.value "-1")
        (.call "f" [.value "x"]))) (.value "b")) (.construct "C" none [])) := by
    cbv
  have hname : ∀ name, isUpperName name = false → IsBare [.ident name] (.value name) :=
    fun name hlower => ⟨.value hlower, by simp⟩
  have hnegative : IsBare [.symbol .minus, .number "1"] (.value "-1") := ⟨.negative, by simp⟩
  have hcall : IsBare [.ident "f", .ident "x"] (.call "f" [.value "x"]) :=
    ⟨.call (by decide) .name .nil, by simp⟩
  have htag : IsBare [.ident "C"] (.construct "C" none []) := ⟨.construct (by decide), by simp⟩
  have hchain := Row.more .sub (hname "a" (by decide)) <| Row.more .mul hnegative <|
    Row.more .ne hcall <| Row.more .or (hname "b" (by decide)) <| Row.one htag
  obtain ⟨write, hoperands, htext⟩ := expr_chain hscan hchain htree .js 0
  have hknown : Target.js.dialect.expr (.binary .or
      (.binary .ne (.binary .sub (.value "a") (.binary .mul (.value "-1")
        (.call "f" [.value "x"]))) (.value "b")) (.construct "C" none [])) 0 =
      .ok "a - -1 * f(x) !== b || C(\x7b \x7d)" 0 := by
    cbv
  rw [htext] at hknown
  exact ⟨_, _, hscan, hchain, htree, write, hoperands, htext, (EStateM.Result.ok.inj hknown).1⟩

end Polyglot
