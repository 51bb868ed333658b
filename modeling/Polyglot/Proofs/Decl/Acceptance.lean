import Polyglot.Proofs.Decl.Surface

/-!
# Declarations are read exactly by their grammar

The grammar of an equation ends a signature where a token starts a line, and nowhere else: an
argument of a type does not start a line, and the name behind the signature does. The parser looks
for that place with a greedy loop, and finds it. `DerivesDefinition` gives the grammar with the types
that an equation gets from its signature, without the functions that assign them.

Results:
1. `derivesEquation_iff`: what the steps of the parser assign is what the grammar says.
2. `outcome_eq_ok_iff_derives`: unions and equations are read exactly if they are derived.
-/

namespace Polyglot.Grammar

open Polyglot.Parser

/-! ## Equations with their types -/

/-- What the types of a signature are for: one for each parameter and the last for the result. Where
there are no parameters, several types are the parts of one function type. -/
inductive Typing : List String → List Ty → List Binding → Ty → Prop
  | each {bindings : List Binding} {result : Ty} :
      Typing (bindings.map Binding.name) (bindings.map Binding.type ++ [result]) bindings result
  | whole {types : List Ty} : 2 ≤ types.length → Typing [] types [] (.func types)

/-- An equation, with a signature before it or without. -/
inductive DerivesDefinition : List Token → Equation → Prop
  | plain {name : String} {pos : Position} {params ts : List Token} {names : List String}
      {equals : Token} {body : Expr} :
      params.map Token.lexeme = names.map Lexeme.ident → equals.lexeme = .symbol .equals →
      Derives .expr (ts.map Token.lexeme) body →
      DerivesDefinition (⟨.ident name, pos⟩ :: (params ++ equals :: ts))
        ⟨name, names.map fun param => ⟨param, .named "any" []⟩, .named "any" [], body⟩
  | signed {name : String} {pos : Position} {signed params ts : List Token} {names : List String}
      {equals : Token} {types : List Ty} {bindings : List Binding} {result : Ty} {body : Expr} :
      DerivesSignature signed name types → pos.col = 1 →
      params.map Token.lexeme = names.map Lexeme.ident → equals.lexeme = .symbol .equals →
      Derives .expr (ts.map Token.lexeme) body → Typing names types bindings result →
      DerivesDefinition (signed ++ ⟨.ident name, pos⟩ :: (params ++ equals :: ts))
        ⟨name, bindings, result, body⟩

theorem assignTypes_eq_some_iff {names : List String} {types : List Ty} {bindings : List Binding}
    {result : Ty} :
    assignTypes names types = some (bindings, result) ↔
      names = bindings.map Binding.name ∧ types = bindings.map Binding.type ++ [result] := by
  constructor
  · intro h
    fun_induction assignTypes names types generalizing bindings result with
    | case1 ty =>
      cases h
      exact ⟨rfl, rfl⟩
    | case2 name names ty types ih =>
      obtain ⟨⟨others, last⟩, hrest, heq⟩ := Option.map_eq_some_iff.mp h
      cases heq
      obtain ⟨rfl, rfl⟩ := ih hrest
      exact ⟨rfl, rfl⟩
    | case3 => cases h
  · rintro ⟨rfl, rfl⟩
    exact assignTypes_bindings bindings result

/-- The types are assigned as the grammar says. -/
theorem assignTypes_equationTypes_iff {names : List String} {types : List Ty}
    {bindings : List Binding} {result : Ty} :
    assignTypes names (equationTypes names.length types) = some (bindings, result) ↔
      Typing names types bindings result := by
  rw [assignTypes_eq_some_iff, equationTypes]
  split
  · next hwhole =>
    constructor
    · rintro ⟨rfl, htypes⟩
      rw [List.length_map, List.length_eq_zero_iff] at hwhole
      obtain ⟨rfl, hlength⟩ := hwhole
      obtain rfl : .func types = result := by simpa using htypes
      exact .whole hlength
    · intro h
      cases h with
      | each =>
        -- without parameters there is only the type of the result
        obtain ⟨hnone, hmany⟩ := hwhole
        rw [List.length_map] at hnone
        rw [List.length_append, List.length_map, hnone] at hmany
        exact absurd hmany (Nat.lt_irrefl 1)
      | whole _ => exact ⟨rfl, rfl⟩
  · next heach =>
    constructor
    · rintro ⟨rfl, rfl⟩
      exact .each
    · intro h
      cases h with
      | each => exact ⟨rfl, rfl⟩
      | whole hlength => exact absurd ⟨rfl, hlength⟩ heach

/-- An equation without parameters is a constant. -/
theorem declaration_eq (e : Equation) :
    declaration e = if e.params = [] then .const e else .function e := by
  simp only [declaration, List.isEmpty_iff]

theorem declare_signed_iff {signed name : String} {types : List Ty} {pos : Position}
    {names : List String} {body : Expr} {decl : Decl} :
    declare (some (signed, types)) name pos names body = .ok decl ↔
      signed = name ∧ ∃ bindings result, Typing names types bindings result ∧
        decl = declaration ⟨name, bindings, result, body⟩ := by
  rw [declare]
  split
  · next hne => simp [hne]
  · next heq =>
    rw [not_not] at heq
    simp only [heq, true_and, ← assignTypes_equationTypes_iff]
    split
    · next bindings result hassign =>
      constructor
      · rintro ⟨⟩
        exact ⟨bindings, result, hassign, rfl⟩
      · rintro ⟨bindings', result', hassign', rfl⟩
        cases hassign.symm.trans hassign'
        rfl
    · next hnone => simp [hnone]

/-- A derived equation has the types that the grammar gives it. -/
theorem derivesEquation_iff {ts : List Token} {decl : Decl} :
    DerivesEquation ts decl ↔ ∃ e, DerivesDefinition ts e ∧ decl = declaration e := by
  constructor
  · intro h
    cases h with
    | plain hclause =>
      cases hclause with
      | mk hparams hequals hbody hdecl =>
        cases hdecl
        exact ⟨_, .plain hparams hequals hbody, rfl⟩
    | signed hsigned hcol hclause =>
      cases hclause with
      | mk hparams hequals hbody hdecl =>
        obtain ⟨rfl, bindings, result, htyping, rfl⟩ := declare_signed_iff.mp hdecl
        exact ⟨_, .signed hsigned hcol hparams hequals hbody htyping, rfl⟩
  · rintro ⟨e, h, rfl⟩
    cases h with
    | plain hparams hequals hbody => exact .plain (.mk hparams hequals hbody rfl)
    | signed hsigned hcol hparams hequals hbody htyping =>
      refine .signed hsigned hcol (.mk hparams hequals hbody (declare_signed_iff.mpr ?_))
      exact ⟨rfl, _, _, htyping, rfl⟩

/-! ## What is derived is read -/

/-- No name reads as a colon, so an equation without a signature is not taken for one with. -/
theorem signatureName?_of_clause {past params ts : List Token} {name : String} {pos : Position}
    {names : List String} {equals : Token} {finish : Position}
    (hv : Valid (params.map Token.lexeme))
    (hparams : params.map Token.lexeme = names.map Lexeme.ident)
    (hequals : equals.lexeme = .symbol .equals) :
    signatureName? ⟨past, ⟨.ident name, pos⟩ :: (params ++ equals :: ts), finish⟩ = none := by
  cases params with
  | nil => simp [signatureName?, hequals, Lexeme.text, Symbol.spelling]
  | cons param params =>
    obtain ⟨first, others, rfl, hfirst, _⟩ := List.map_eq_cons_iff.mp hparams.symm
    have hplain : first ≠ ":" := by
      rintro rfl
      rw [List.map_cons, valid_cons, ← hfirst] at hv
      exact absurd hv.1 (by decide)
    simp [signatureName?, ← hfirst, Lexeme.text, hplain]

theorem equation_of_derives {past ts : List Token} {decl : Decl} (finish : Position)
    (h : DerivesEquation ts decl) (hv : Valid (ts.map Token.lexeme)) :
    ∃ after, equation ⟨past, ts, finish⟩ = .ok decl after := by
  cases h with
  | plain hclause =>
    cases hclause with
    | @mk name pos params ts names equals body _ hparams hequals hbody hdecl =>
      simp only [List.map_cons, List.map_append, valid_cons, valid_append] at hv
      rw [equation_unsigned (signatureName?_of_clause hv.2.1 hparams hequals)]
      obtain ⟨before, hclause⟩ : ∃ before,
          clause none ⟨past, ⟨.ident name, pos⟩ :: (params ++ equals :: ts), finish⟩ =
            clauseBody none name pos names ⟨before, ts, finish⟩ :=
        clause_eq_body finish hparams hequals
      rw [hclause]
      exact clauseBody_eq_ok hbody hdecl
  | @signed signed _ _ declared types _ hsigned hcol hclause =>
    cases hclause with
    | @mk name pos params ts names equals body _ hparams hequals hbody hdecl =>
      obtain ⟨before, hequation⟩ : ∃ before,
          equation ⟨past, signed ++ ⟨.ident name, pos⟩ :: (params ++ equals :: ts), finish⟩ =
            clauseBody (some (declared, types)) name pos names ⟨before, ts, finish⟩ :=
        equation_eq_body finish hsigned hcol hparams hequals
      rw [hequation]
      exact clauseBody_eq_ok hbody hdecl

/-! ## Whole texts -/

/-- The tokens of a text are read as a union exactly if the grammar derives them with that union,
and as an equation exactly if the grammar derives them with that equation, which is a constant if it
has no parameters. -/
theorem outcome_eq_ok_iff_derives {text : String} {line : Int} {tokens : Scan}
    (hscan : scan text line = .ok tokens) :
    (∀ declared, union.outcome (Cursor.ofScan tokens) = .ok declared ↔
        DerivesUnion tokens.tokens declared) ∧
      ∀ decl, equation.outcome (Cursor.ofScan tokens) = .ok decl ↔
        ∃ e, DerivesDefinition tokens.tokens e ∧
          decl = if e.params = [] then .const e else .function e := by
  have hv := valid_of_scan hscan
  refine ⟨fun declared => ⟨fun h => ?_, fun h => outcome_of_accepts (accepts_union h)⟩,
    fun decl => ?_⟩
  · obtain ⟨after, hread⟩ := eq_ok_of_outcome h
    obtain ⟨ts, _, rfl, hderives⟩ := (reads_union _).of_ok hread
    exact hderives
  · simp only [← declaration_eq]
    rw [← derivesEquation_iff]
    constructor
    · intro h
      obtain ⟨after, hread⟩ := eq_ok_of_outcome h
      exact derivesEquation_of_ok hread
    · intro h
      obtain ⟨after, hread⟩ := equation_of_derives tokens.finish h hv
      rw [outcome, Cursor.ofScan, hread]

/-- The signature ends before the name that starts the second line, and without parameters its two
types are one function type. -/
theorem outcome_const_of_function :
    ∃ tokens, scan "f: Maybe a ->\n  b\nf = g" 1 = .ok tokens ∧
      equation.outcome (Cursor.ofScan tokens) =
        .ok (.const ⟨"f", [], .func [.named "Maybe" [.var "a"], .var "b"], .value "g"⟩) := by
  have hscan : scan "f: Maybe a ->\n  b\nf = g" 1 = .ok
      ⟨[⟨.ident "f", ⟨1, 1⟩⟩, ⟨.symbol .colon, ⟨1, 2⟩⟩, ⟨.ident "Maybe", ⟨1, 4⟩⟩,
        ⟨.ident "a", ⟨1, 10⟩⟩, ⟨.symbol .arrow, ⟨1, 12⟩⟩, ⟨.ident "b", ⟨2, 3⟩⟩,
        ⟨.ident "f", ⟨3, 1⟩⟩, ⟨.symbol .equals, ⟨3, 3⟩⟩, ⟨.ident "g", ⟨3, 5⟩⟩], ⟨3, 6⟩⟩ := by
    cbv
  have hfirst : DerivesType .element [⟨.ident "Maybe", ⟨1, 4⟩⟩, ⟨.ident "a", ⟨1, 10⟩⟩]
      (.named "Maybe" [.var "a"]) :=
    .applied (.cons (.mk .name (by decide)) .nil)
  have hsecond : DerivesType .element [⟨.ident "b", ⟨2, 3⟩⟩] (.var "b") := .applied .nil
  have hafter : After (fun t => t.lexeme = .symbol .arrow) (DerivesType .element)
      [⟨.symbol .arrow, ⟨1, 12⟩⟩, ⟨.ident "b", ⟨2, 3⟩⟩] (.var "b") :=
    .mk rfl hsecond
  have hbody : Derives .expr [.ident "g"] (.value "g") :=
    .or (.orOne (.andOne (.compareOne (.sumOne (.productOne (.value (by decide)))))))
  have hwhole : Typing [] [.named "Maybe" [.var "a"], .var "b"] [] _ := .whole (by decide)
  refine ⟨_, hscan, ((outcome_eq_ok_iff_derives hscan).2 _).mpr
    ⟨⟨"f", [], .func [.named "Maybe" [.var "a"], .var "b"], .value "g"⟩, ?_, rfl⟩⟩
  exact .signed (.mk rfl hfirst (.cons hafter .nil)) rfl (List.map_nil.trans List.map_nil.symm) rfl
    hbody hwhole

end Polyglot.Grammar
