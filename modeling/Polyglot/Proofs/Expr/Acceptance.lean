import Polyglot.Proofs.Expr.Derivation

/-!
# Acceptance of expressions

The parser of expressions takes as much as it can. That costs it no derivation, because what stands
behind a phrase cannot extend it: `binding` gives to every lexeme the precedence with which it ties
a phrase to what follows, and a rule ends before any lexeme that ties less than its own operands do.

Results:
1. `accepts_expr`: the parser accepts every derivable list of tokens, with the tree of the
   derivation.
2. `ofText_eq_ok_iff_derives`: reading a text gives `e` exactly if the grammar derives its lexemes
   with the tree `e`; where there is no derivation, it fails as a malformed expression, and there is
   never more than one tree.
-/

namespace Polyglot.Grammar

open Polyglot.Parser

/-! ## First lexemes -/

/-- Whether a lexeme opens an argument. -/
def opensAtom : Option Lexeme → Bool
  | some (.number _) | some (.string _) | some (.ident _) => true
  | some (.symbol .openParen) | some (.symbol .openBracket) | some (.symbol .openBrace) => true
  | _ => false

theorem startsAtom_eq (c : Cursor) : startsAtom c = opensAtom c.lexeme? :=
  rfl

/-- The lexemes that a phrase of a rule can start with. -/
def Opens : Rule → Lexeme → Prop
  | .expr, l => opensAtom (some l) = true ∨
      l ∈ [.symbol .minus, .keyword .ifWord, .symbol .backslash]
  | .atom, l => opensAtom (some l) = true
  | .primary, l => opensAtom (some l) = true ∧ isIdent (some l) = false
  | _, l => opensAtom (some l) = true ∨ l = .symbol .minus

theorem derives_opens {rule : Rule} {ls : List Lexeme} {e : Expr} :
    Derives rule ls e → ∃ l ms, ls = l :: ms ∧ Opens rule l
  | .cond .. | .lambda .. => ⟨_, _, rfl, .inr (by simp)⟩
  | .or h => by
    obtain ⟨l, ms, rfl, hl⟩ := derives_opens h
    exact ⟨l, ms, rfl, hl.imp id fun hl => by simp [hl]⟩
  | .orOne h | .andOne h | .compareOne h | .sumOne h | .productOne h => by
    obtain ⟨l, ms, rfl, hl⟩ := derives_opens h
    exact ⟨l, ms, rfl, hl⟩
  | .orMore h _ | .andMore h _ | .compareTwo _ h _ | .sumMore _ h _ | .productMore _ h _ => by
    obtain ⟨l, ms, rfl, hl⟩ := derives_opens h
    exact ⟨l, _, rfl, hl⟩
  | .construct _ | .constructWith _ _ | .value _ | .call _ _ _ => ⟨_, _, rfl, .inl rfl⟩
  | .negative => ⟨_, _, rfl, .inr rfl⟩
  | .operand h => by
    obtain ⟨l, ms, rfl, hl⟩ := derives_opens h
    exact ⟨l, ms, rfl, .inl hl.1⟩
  | .argument h => by
    obtain ⟨l, ms, rfl, hl⟩ := derives_opens h
    exact ⟨l, ms, rfl, hl.1⟩
  | .name => ⟨_, _, rfl, rfl⟩
  | .number | .string | .paren _ => ⟨_, _, rfl, rfl, rfl⟩
  | .list h | .record h => by cases h <;> exact ⟨_, _, rfl, rfl, rfl⟩

/-! ## Last lexemes -/

/-- The precedence with which a lexeme ties what stands before it to what follows: an argument ties
closest, then the operators by precedence. Nothing else ties. -/
def binding : Option Lexeme → Nat
  | some (.symbol .barBar) => 1
  | some (.symbol .andAnd) => 2
  | some (.symbol .equalEqual) | some (.symbol .notEqual) | some (.symbol .less) => 3
  | some (.symbol .lessEq) | some (.symbol .greater) | some (.symbol .greaterEq) => 3
  | some (.symbol .plus) | some (.symbol .minus) => 4
  | some (.symbol .star) | some (.symbol .slash) => 5
  | l => if opensAtom l then 6 else 0

theorem binding_symbol (op : BinaryOp) :
    binding (some (.symbol op.symbol)) = op.precedence := by
  cases op <;> rfl

theorem opensAtom_of_binding {l : Option Lexeme} (h : binding l < 6) : opensAtom l = false := by
  unfold binding at h
  split at h <;> first | rfl | (split at h <;> simp_all)

theorem Recognises.eq_none {op? : Option Lexeme → Option BinaryOp} {ops : List BinaryOp}
    (hop : Recognises op? ops) {k : Nat} (hk : ∀ op ∈ ops, op.precedence = k)
    {l : Option Lexeme} (hl : binding l < k) : op? l = none := by
  cases l with
  | none => exact hop.atEnd
  | some l =>
    cases hsome : op? (some l) with
    | none => rfl
    | some op =>
      obtain ⟨hmem, rfl⟩ := (hop.atLexeme l op).mp hsome
      rw [binding_symbol, hk op hmem] at hl
      omega

/-- What can stand behind a phrase without extending it. -/
def Closes (k : Nat) (rest : List Token) : Prop :=
  binding (rest.head?.map Token.lexeme) < k

theorem Closes.mono {k m : Nat} {rest : List Token} (h : Closes k rest) (hkm : k ≤ m) :
    Closes m rest :=
  Nat.lt_of_lt_of_le h hkm

theorem closes_cons {k : Nat} {t : Token} {rest : List Token} (h : binding (some t.lexeme) < k) :
    Closes k (t :: rest) :=
  h

/-! ## Operators -/

theorem accepts_operation_one {op? : Option Lexeme → Option BinaryOp} {left right : Parser Expr}
    {past ts rest : List Token} {e : Expr} (hleft : left.Accepts past ts e rest)
    (hop : op? (rest.head?.map Token.lexeme) = none) :
    (operation op? left right).Accepts past ts e rest := by
  intro finish
  simp only [operation, Bind.bind, EStateM.bind]
  rw [hleft finish]
  simp only [peek, Cursor.lexeme?_eq, hop]
  rfl

theorem accepts_operation_two {op? : Option Lexeme → Option BinaryOp} {left right : Parser Expr}
    {past ts us rest : List Token} {t : Token} {op : BinaryOp} {a b : Expr}
    (hleft : left.Accepts past ts a (t :: (us ++ rest))) (hop : op? (some t.lexeme) = some op)
    (hright : right.Accepts (t :: (ts.reverse ++ past)) us b rest) :
    (operation op? left right).Accepts past (ts ++ t :: us) (.binary op a b) rest := by
  refine Accepts.bind hleft (accepts_peek ?_)
  simp only [List.cons_append, List.head?_cons, Option.map_some, hop]
  exact accepts_advance t (hright.map (Expr.binary op a))

/-- A chain is accepted if its operands are: each operand ends before the operator behind it. -/
theorem accepts_chain {op? : Option Lexeme → Option BinaryOp} {ops : List BinaryOp}
    (hop : Recognises op? ops) {k n : Nat} (hk : ∀ op ∈ ops, op.precedence = k)
    {operand : Parser Expr} {below whole : Rule}
    (hoperand : ∀ {past ts e rest}, Phrase below ts e → ts.length ≤ n → Closes (k + 1) rest →
      operand.Accepts past ts e rest)
    (hcases : ∀ {ls e}, Derives whole ls e → Derives below ls e ∨
      ∃ op ∈ ops, ∃ ms ns a b, Derives below ms a ∧ Derives whole ns b ∧
        ls = ms ++ .symbol op.symbol :: ns ∧ e = .binary op a b)
    {past ts rest : List Token} {e : Expr} (h : Phrase whole ts e) (hlen : ts.length ≤ n)
    (hrest : Closes k rest) : (chain op? operand).Accepts past ts e rest := by
  refine accepts_fix fun depth => ?_
  induction depth generalizing past ts e with
  | zero => intro hdepth; omega
  | succ depth ih =>
    intro hdepth
    rcases hcases h with hone | ⟨op, hmem, ms, ns, a, b, hleft, hright, hls, rfl⟩
    · exact accepts_operation_one (hoperand hone hlen (hrest.mono (Nat.le_succ k)))
        (hop.eq_none hk hrest)
    · obtain ⟨us, vs, rfl, rfl, hvs⟩ := List.map_eq_append_iff.mp hls
      obtain ⟨t, ws, rfl, ht, rfl⟩ := List.map_eq_cons_iff.mp hvs
      rw [List.length_append, List.length_cons] at hlen hdepth
      refine accepts_operation_two (hoperand hleft (by omega) (closes_cons ?_))
        ((hop.atLexeme _ op).mpr ⟨hmem, ht⟩) (ih hright (by omega) (by omega))
      rw [ht, binding_symbol, hk op hmem]
      exact Nat.lt_succ_self k

/-! ## Completeness -/

section Layers

-- Each layer of the grammar is accepted by its parser, provided that the parser of whole
-- expressions accepts the derivable lists of fewer than `n` tokens.
variable {p : Parser Expr} {n : Nat}
  (hp : ∀ {past ts e rest}, Phrase .expr ts e → ts.length < n → Closes 1 rest →
    p.Accepts past ts e rest)
include hp

theorem accepts_field {past ts rest : List Token} {field : String × Expr}
    (h : Labelled (Derives .expr) (ts.map Token.lexeme) field) (hlen : ts.length ≤ n)
    (hrest : Closes 1 rest) : (fieldWith p).Accepts past ts field rest := by
  generalize hls : ts.map Token.lexeme = ls at h
  cases h with
  | @mk name ls e he =>
    obtain ⟨⟨_, pos⟩, us, rfl, rfl, hus⟩ := List.map_eq_cons_iff.mp hls
    obtain ⟨t, vs, rfl, ht, rfl⟩ := List.map_eq_cons_iff.mp hus
    simp only [List.length_cons] at hlen
    refine accepts_expectIdent name pos (accepts_expect ht ?_)
    exact (hp he (by omega) hrest).map fun content => (name, content)

omit hp in
theorem enclosed_of_bracketed {α : Type} {opening closing : Symbol} {P : List Lexeme → α → Prop}
    {ts : List Token} {as : List α} (h : Bracketed opening closing P (ts.map Token.lexeme) as) :
    ∃ t us, ts = t :: us ∧ t.lexeme = .symbol opening ∧
      Enclosed closing (fun vs a => P (vs.map Token.lexeme) a) us as := by
  generalize hls : ts.map Token.lexeme = ls at h
  cases h with
  | nil =>
    obtain ⟨t, us, rfl, ht, hus⟩ := List.map_eq_cons_iff.mp hls
    obtain ⟨t', vs, rfl, ht', hvs⟩ := List.map_eq_cons_iff.mp hus
    rw [List.map_eq_nil_iff.mp hvs]
    exact ⟨t, [t'], rfl, ht, .nil ht'⟩
  | cons hP hmany =>
    obtain ⟨t, us, rfl, ht, hus⟩ := List.map_eq_cons_iff.mp hls
    obtain ⟨vs, ws, rfl, rfl, hws⟩ := List.map_eq_append_iff.mp hus
    obtain ⟨xs, ys, rfl, hxs, hys⟩ := List.map_eq_append_iff.mp hws
    obtain ⟨t', zs, rfl, ht', hzs⟩ := List.map_eq_cons_iff.mp hys
    rw [List.map_eq_nil_iff.mp hzs]
    refine ⟨t, _, rfl, ht, .cons hP ?_ ht'⟩
    exact (hmany.of_map hxs).mono fun us a hafter _ => hafter.of_map

theorem accepts_record {past ts rest : List Token} {fields : List (String × Expr)}
    (h : Bracketed .openBrace .closeBrace (Labelled (Derives .expr)) (ts.map Token.lexeme) fields)
    (hlen : ts.length ≤ n + 1) : (recordWith p).Accepts past ts fields rest := by
  obtain ⟨t, us, rfl, ht, henclosed⟩ := enclosed_of_bracketed h
  rw [List.length_cons] at hlen
  refine accepts_expect ht (accepts_enclosed (by decide) henclosed ?_ ?_ (List.cons_ne_nil _ _))
  · intro vs field ws hfield
    generalize hls : vs.map Token.lexeme = ls at hfield
    cases hfield with
    | mk _ =>
      obtain ⟨t', vs', rfl, ht', _⟩ := List.map_eq_cons_iff.mp hls
      simp [ht']
  · intro past vs field ws hfield hvs hnext
    refine accepts_field hp hfield (by omega) ?_
    rcases hnext with hnext | hnext <;> rw [Closes, hnext] <;> decide

/-- A primary ends with its own last token, so anything may stand behind it. -/
theorem accepts_primary {past ts rest : List Token} {e : Expr} (h : Phrase .primary ts e)
    (hlen : ts.length ≤ n) : (atomWith p).Accepts past ts e rest := by
  unfold Phrase at h
  generalize hls : ts.map Token.lexeme = ls at h
  cases h with
  | number | string =>
    obtain ⟨t, us, rfl, ht, hus⟩ := List.map_eq_cons_iff.mp hls
    rw [List.map_eq_nil_iff.mp hus]
    exact accepts_peek_cons ht (accepts_advance t (accepts_pure _))
  | list hitems =>
    rw [← hls] at hitems
    obtain ⟨t, us, rfl, ht, henclosed⟩ := enclosed_of_bracketed hitems
    rw [List.length_cons] at hlen
    refine accepts_peek_cons ht (accepts_advance t (Accepts.map ?_ Expr.list))
    refine accepts_enclosed (by decide) henclosed ?_ ?_ (List.cons_ne_nil _ _)
    · intro vs item ws hitem
      obtain ⟨l, ms, hl, hopens⟩ := derives_opens hitem
      obtain ⟨t', vs', rfl, rfl, _⟩ := List.map_eq_cons_iff.mp hl
      intro hclose
      rw [List.cons_append, List.head?_cons, Option.map_some, Option.some.injEq] at hclose
      rw [hclose] at hopens
      simp [Opens, opensAtom] at hopens
    · intro past vs item ws hitem hvs hnext
      refine hp hitem (by omega) ?_
      rcases hnext with hnext | hnext <;> rw [Closes, hnext] <;> decide
  | record hfields =>
    rw [← hls] at hfields
    obtain ⟨t, us, rfl, ht, _⟩ := enclosed_of_bracketed hfields
    exact accepts_peek_cons ht ((accepts_record hp hfields (by omega)).map _)
  | paren he =>
    obtain ⟨t, us, rfl, ht, hus⟩ := List.map_eq_cons_iff.mp hls
    obtain ⟨vs, ws, rfl, rfl, hws⟩ := List.map_eq_append_iff.mp hus
    obtain ⟨t', xs, rfl, ht', hxs⟩ := List.map_eq_cons_iff.mp hws
    rw [List.map_eq_nil_iff.mp hxs] at hlen ⊢
    simp only [List.length_cons, List.length_append, List.length_nil] at hlen
    refine accepts_peek_cons ht
      (accepts_advance t (Accepts.bind (hp he (by omega) (closes_cons ?_)) ?_))
    · rw [ht']
      decide
    · exact accepts_expect ht' (accepts_pure e)

theorem accepts_atom {past ts rest : List Token} {e : Expr} (h : Phrase .atom ts e)
    (hlen : ts.length ≤ n) : (atomWith p).Accepts past ts e rest := by
  unfold Phrase at h
  generalize hls : ts.map Token.lexeme = ls at h
  cases h with
  | name =>
    obtain ⟨t, us, rfl, ht, hus⟩ := List.map_eq_cons_iff.mp hls
    rw [List.map_eq_nil_iff.mp hus]
    exact accepts_peek_cons ht (accepts_advance t (accepts_pure _))
  | argument h =>
    rw [← hls] at h
    exact accepts_primary hp h hlen

/-- The arguments of a call are all the atoms there are. -/
theorem accepts_args {past ts rest : List Token} {args : List Expr}
    (h : Many (Derives .atom) (ts.map Token.lexeme) args) (hlen : ts.length ≤ n)
    (hrest : Closes 6 rest) (hpast : past ≠ []) :
    (many startsAtom (atomWith p)).Accepts past ts args rest := by
  have hmany := (h.of_map rfl).mono fun us a hP hus => (⟨hP, hus⟩ : _ ∧ _)
  refine accepts_many (fun past finish _ => ?_) (fun past us a vs as _ hP _ => ?_) hmany hpast
  · rw [startsAtom_eq, Cursor.lexeme?_eq]
    exact opensAtom_of_binding hrest
  · obtain ⟨l, ms, hl, hopens⟩ := derives_opens hP.1
    refine ⟨?_, fun finish => ?_, accepts_atom hp hP.1 (Nat.le_trans hP.2 hlen)⟩
    · rintro rfl
      cases hl
    · obtain ⟨t', us', rfl, rfl, _⟩ := List.map_eq_cons_iff.mp hl
      rw [startsAtom_eq, Cursor.lexeme?_eq]
      exact hopens

theorem accepts_application {past ts rest : List Token} {e : Expr} (h : Phrase .application ts e)
    (hlen : ts.length ≤ n) (hrest : Closes 6 rest) :
    (applicationWith p).Accepts past ts e rest := by
  unfold Phrase at h
  generalize hls : ts.map Token.lexeme = ls at h
  cases h with
  | @construct tag hupper =>
    obtain ⟨t, us, rfl, ht, hus⟩ := List.map_eq_cons_iff.mp hls
    rw [List.map_eq_nil_iff.mp hus]
    refine accepts_peek_cons ht (accepts_advance t ?_)
    rw [if_pos hupper]
    refine accepts_sees ?_
    have hbrace : rest.head?.map Token.lexeme ≠ some (.symbol .openBrace) := by
      intro hbrace
      rw [Closes, hbrace] at hrest
      revert hrest
      decide
    rw [List.nil_append, if_neg (by simpa using hbrace)]
    exact accepts_pure _
  | @constructWith tag ls fields hupper hfields =>
    obtain ⟨t, us, rfl, ht, rfl⟩ := List.map_eq_cons_iff.mp hls
    rw [List.length_cons] at hlen
    refine accepts_peek_cons ht (accepts_advance t ?_)
    rw [if_pos hupper]
    refine accepts_sees ?_
    obtain ⟨t', us', rfl, ht', _⟩ := enclosed_of_bracketed hfields
    simp only [List.cons_append, List.head?_cons, Option.map_some, ht', beq_self_eq_true, if_true]
    exact (accepts_record hp hfields (by omega)).map _
  | @value name hlower =>
    obtain ⟨t, us, rfl, ht, hus⟩ := List.map_eq_cons_iff.mp hls
    rw [List.map_eq_nil_iff.mp hus]
    refine accepts_peek_cons ht (accepts_advance t ?_)
    rw [if_neg (by simp [hlower])]
    have hnone : Many (Derives .atom) (([] : List Token).map Token.lexeme) [] := .nil
    exact (accepts_args hp hnone (Nat.zero_le n) hrest (List.cons_ne_nil _ _)).map
      (appliedExpr name)
  | @call name ls ms arg args hlower harg hargs =>
    obtain ⟨t, us, rfl, ht, hus⟩ := List.map_eq_cons_iff.mp hls
    rw [List.length_cons] at hlen
    refine accepts_peek_cons ht (accepts_advance t ?_)
    rw [if_neg (by simp [hlower])]
    have hmany : Many (Derives .atom) (us.map Token.lexeme) (arg :: args) := by
      rw [hus]
      exact .cons harg hargs
    exact (accepts_args hp hmany (by omega) hrest (List.cons_ne_nil _ _)).map (appliedExpr name)
  | @negative digits =>
    obtain ⟨t, us, rfl, ht, hus⟩ := List.map_eq_cons_iff.mp hls
    obtain ⟨⟨_, pos⟩, vs, rfl, rfl, hvs⟩ := List.map_eq_cons_iff.mp hus
    rw [List.map_eq_nil_iff.mp hvs]
    exact accepts_peek_cons ht (accepts_peek_cons ht fun finish => rfl)
  | operand h =>
    obtain ⟨l, ms, rfl, hopens⟩ := derives_opens h
    obtain ⟨t, us, rfl, rfl, _⟩ := List.map_eq_cons_iff.mp hls
    rw [← hls] at h
    refine accepts_peek_cons rfl ?_
    split
    · next name hname =>
      rw [Option.some.inj hname] at hopens
      cases hopens.2
    · exact accepts_primary hp h hlen

theorem accepts_product {past ts rest : List Token} {e : Expr} (h : Phrase .product ts e)
    (hlen : ts.length ≤ n) (hrest : Closes 5 rest) :
    (productWith p).Accepts past ts e rest := by
  refine accepts_chain recognises_product (by decide) (accepts_application hp) (fun h => ?_) h hlen hrest
  cases h with
  | productOne h => exact .inl h
  | productMore hop hleft hright =>
    exact .inr ⟨_, hop, _, _, _, _, hleft, hright, rfl, rfl⟩

theorem accepts_sum {past ts rest : List Token} {e : Expr} (h : Phrase .sum ts e)
    (hlen : ts.length ≤ n) (hrest : Closes 4 rest) : (sumWith p).Accepts past ts e rest := by
  refine accepts_chain recognises_sum (by decide) (accepts_product hp) (fun h => ?_) h hlen hrest
  cases h with
  | sumOne h => exact .inl h
  | sumMore hop hleft hright => exact .inr ⟨_, hop, _, _, _, _, hleft, hright, rfl, rfl⟩

theorem accepts_compare {past ts rest : List Token} {e : Expr} (h : Phrase .compare ts e)
    (hlen : ts.length ≤ n) (hrest : Closes 3 rest) :
    (compareWith p).Accepts past ts e rest := by
  unfold Phrase at h
  generalize hls : ts.map Token.lexeme = ls at h
  cases h with
  | compareOne h =>
    rw [← hls] at h
    exact accepts_operation_one (accepts_sum hp h hlen (hrest.mono (by decide)))
      (recognises_compare.eq_none (by decide) hrest)
  | @compareTwo op ls ms a b hop hleft hright =>
    obtain ⟨us, vs, rfl, rfl, hvs⟩ := List.map_eq_append_iff.mp hls
    obtain ⟨t, ws, rfl, ht, rfl⟩ := List.map_eq_cons_iff.mp hvs
    rw [List.length_append, List.length_cons] at hlen
    have hstrength : ∀ op ∈ [BinaryOp.eq, .ne, .lt, .le, .gt, .ge], op.precedence = 3 := by decide
    refine accepts_operation_two (accepts_sum hp hleft (by omega) (closes_cons ?_))
      ((recognises_compare.atLexeme _ op).mpr ⟨hop, ht⟩)
      (accepts_sum hp hright (by omega) (hrest.mono (by decide)))
    rw [ht, binding_symbol, hstrength op hop]
    decide

theorem accepts_and {past ts rest : List Token} {e : Expr} (h : Phrase .and ts e)
    (hlen : ts.length ≤ n) (hrest : Closes 2 rest) : (andWith p).Accepts past ts e rest := by
  refine accepts_chain recognises_and (by decide) (accepts_compare hp) (fun h => ?_) h hlen hrest
  cases h with
  | andOne h => exact .inl h
  | andMore hleft hright =>
    exact .inr ⟨.and, List.mem_singleton_self _, _, _, _, _, hleft, hright, rfl, rfl⟩

theorem accepts_or {past ts rest : List Token} {e : Expr} (h : Phrase .or ts e)
    (hlen : ts.length ≤ n) (hrest : Closes 1 rest) : (orWith p).Accepts past ts e rest := by
  refine accepts_chain recognises_or (by decide) (accepts_and hp) (fun h => ?_) h hlen hrest
  cases h with
  | orOne h => exact .inl h
  | orMore hleft hright =>
    exact .inr ⟨.or, List.mem_singleton_self _, _, _, _, _, hleft, hright, rfl, rfl⟩

theorem accepts_exprWith {past ts rest : List Token} {e : Expr} (h : Phrase .expr ts e)
    (hlen : ts.length ≤ n) (hrest : Closes 1 rest) : (exprWith p).Accepts past ts e rest := by
  unfold Phrase at h
  generalize hls : ts.map Token.lexeme = ls at h
  cases h with
  | @cond ls ms ns test yes no htest hyes hno =>
    obtain ⟨t, us, rfl, ht, hus⟩ := List.map_eq_cons_iff.mp hls
    obtain ⟨vs, ws, rfl, rfl, hws⟩ := List.map_eq_append_iff.mp hus
    obtain ⟨t', xs, rfl, ht', hxs⟩ := List.map_eq_cons_iff.mp hws
    obtain ⟨ys, zs, rfl, rfl, hzs⟩ := List.map_eq_append_iff.mp hxs
    obtain ⟨t'', ws', rfl, ht'', rfl⟩ := List.map_eq_cons_iff.mp hzs
    simp only [List.length_cons, List.length_append] at hlen
    refine accepts_peek_cons ht ?_
    refine accepts_expect ht ((hp htest (by omega) (closes_cons ?_)).bind ?_)
    · rw [ht']
      decide
    refine accepts_expect ht' ((hp hyes (by omega) (closes_cons ?_)).bind ?_)
    · rw [ht'']
      decide
    exact accepts_expect ht'' ((hp hno (by omega) hrest).map (Expr.cond test yes))
  | @lambda first others ls body hbody =>
    obtain ⟨t, us, rfl, ht, hus⟩ := List.map_eq_cons_iff.mp hls
    obtain ⟨⟨_, pos⟩, vs, rfl, rfl, hvs⟩ := List.map_eq_cons_iff.mp hus
    obtain ⟨ws, xs, rfl, hws, hxs⟩ := List.map_eq_append_iff.mp hvs
    obtain ⟨t', ys, rfl, ht', rfl⟩ := List.map_eq_cons_iff.mp hxs
    simp only [List.length_cons, List.length_append] at hlen
    refine accepts_peek_cons ht (accepts_expect ht (accepts_expectIdent first pos ?_))
    refine (accepts_names ?_ hws (List.cons_ne_nil _ _)).bind ?_
    · simp [ht', isIdent]
    exact accepts_expect ht' ((hp hbody (by omega) hrest).map (Expr.lambda (first :: others)))
  | or h =>
    obtain ⟨l, ms, rfl, hopens⟩ := derives_opens h
    obtain ⟨t, us, rfl, rfl, _⟩ := List.map_eq_cons_iff.mp hls
    rw [← hls] at h
    refine accepts_peek_cons rfl ?_
    split
    · next hif =>
      rw [Option.some.inj hif] at hopens
      simp [Opens, opensAtom] at hopens
    · next hback =>
      rw [Option.some.inj hback] at hopens
      simp [Opens, opensAtom] at hopens
    · exact accepts_or hp h hlen hrest

end Layers

theorem accepts_expr {past ts rest : List Token} {e : Expr} (h : Phrase .expr ts e)
    (hrest : Closes 1 rest) : expr.Accepts past ts e rest := by
  refine accepts_fix fun depth => ?_
  -- The depth bounds the number of tokens, and an inner expression has fewer of them.
  induction depth generalizing past ts e rest with
  | zero => intro hdepth; omega
  | succ depth ih =>
    intro hdepth
    exact accepts_exprWith (n := depth) (fun h hlen hrest => ih h hrest hlen) h (by omega) hrest

/-! ## Whole texts -/

/-- An expression and then the end: what is read is all there is. -/
theorem reads_whole (c : Cursor) :
    (do
      let e ← expr
      expectEnd .expression
      return e : Parser Expr).Reads .expression c fun ts e => ts = c.rest ∧ Phrase .expr ts e := by
  refine (reads_expr c).bind fun ts e c₁ hspan hts => ?_
  refine (reads_expectEnd c₁).bind fun us _ _ _ hus => reads_pure ?_
  obtain ⟨rfl, hend⟩ := hus
  have hall := hspan.rest
  rw [hend, List.append_nil] at hall
  rw [List.append_nil, List.append_nil]
  exact ⟨hall.symm, hts⟩

theorem accepts_whole {ts : List Token} {e : Expr} (h : Phrase .expr ts e) :
    (do
      let e ← expr
      expectEnd .expression
      return e : Parser Expr).Accepts [] ts e [] := by
  have hend : Closes 1 [] := Nat.one_pos
  rw [← List.append_nil ts]
  exact Accepts.bind (accepts_expr h hend) (accepts_expectEnd.map fun _ => e)

theorem ofText_eq_outcome {text : String} {tokens : Scan} (hscan : scan text 1 = .ok tokens) :
    Expr.ofText text = (do
      let e ← expr
      expectEnd .expression
      return e : Parser Expr).outcome (Cursor.ofScan tokens) := by
  rw [Expr.ofText, hscan]
  rfl

theorem ofText_of_derives {text : String} {tokens : Scan} (hscan : scan text 1 = .ok tokens)
    {e : Expr} (h : Derives .expr (tokens.tokens.map Token.lexeme) e) :
    Expr.ofText text = .ok e := by
  rw [ofText_eq_outcome hscan]
  exact outcome_of_accepts (accepts_whole h)

/-- Reading a text that can be cut into tokens gives `e` exactly if the grammar derives the tokens
with the tree `e`. A text without a derivation is a malformed expression, and no text has two
trees. -/
theorem ofText_eq_ok_iff_derives {text : String} {tokens : Scan}
    (hscan : scan text 1 = .ok tokens) :
    (∀ e, Expr.ofText text = .ok e ↔ Derives .expr (tokens.tokens.map Token.lexeme) e) ∧
      ((¬ ∃ e, Derives .expr (tokens.tokens.map Token.lexeme) e) →
        ∃ d, Expr.ofText text = .error d ∧ d.area = .expression) ∧
      ∀ e e', Derives .expr (tokens.tokens.map Token.lexeme) e →
        Derives .expr (tokens.tokens.map Token.lexeme) e' → e = e' := by
  have hiff : ∀ e, Expr.ofText text = .ok e ↔
      Derives .expr (tokens.tokens.map Token.lexeme) e := by
    intro e
    refine ⟨fun h => ?_, ofText_of_derives hscan⟩
    rw [ofText_eq_outcome hscan] at h
    obtain ⟨after, hok⟩ := eq_ok_of_outcome h
    obtain ⟨ts, _, rfl, hts⟩ := (reads_whole _).of_ok hok
    exact hts
  refine ⟨hiff, fun hnone => ?_, fun e e' h h' => ?_⟩
  · cases hresult : Expr.ofText text with
    | ok e => exact absurd ⟨e, (hiff e).mp hresult⟩ hnone
    | error d =>
      rw [ofText_eq_outcome hscan] at hresult
      obtain ⟨after, herror⟩ := eq_error_of_outcome hresult
      exact ⟨d, rfl, ((reads_whole _).of_error herror).1⟩
  · have hok := (hiff e).mpr h
    rw [(hiff e').mpr h'] at hok
    exact (Except.ok.inj hok).symm

/-- A sign after an operator belongs to the number behind it, and an argument ends before the
operator. -/
theorem ofText_call_minus_negative :
    scan "f x - -1" 1 = .ok
        ⟨[⟨.ident "f", ⟨1, 1⟩⟩, ⟨.ident "x", ⟨1, 3⟩⟩, ⟨.symbol .minus, ⟨1, 5⟩⟩,
          ⟨.symbol .minus, ⟨1, 7⟩⟩, ⟨.number "1", ⟨1, 8⟩⟩], ⟨1, 9⟩⟩ ∧
      Expr.ofText "f x - -1" = .ok (.binary .sub (.call "f" [.value "x"]) (.value "-1")) := by
  have hscan : scan "f x - -1" 1 = .ok
      ⟨[⟨.ident "f", ⟨1, 1⟩⟩, ⟨.ident "x", ⟨1, 3⟩⟩, ⟨.symbol .minus, ⟨1, 5⟩⟩,
        ⟨.symbol .minus, ⟨1, 7⟩⟩, ⟨.number "1", ⟨1, 8⟩⟩], ⟨1, 9⟩⟩ := by
    cbv
  refine ⟨hscan, ((ofText_eq_ok_iff_derives hscan).1 _).mpr ?_⟩
  have hcall : Derives .application [.ident "f", .ident "x"] (.call "f" [.value "x"]) :=
    .call (by decide) .name .nil
  have hright : Derives .sum [.symbol .minus, .number "1"] (.value "-1") :=
    .sumOne (.productOne .negative)
  have hop : BinaryOp.sub ∈ [BinaryOp.add, .sub] := by decide
  have hsum := Derives.sumMore hop (.productOne hcall) hright
  exact .or (.orOne (.andOne (.compareOne hsum)))

end Polyglot.Grammar
