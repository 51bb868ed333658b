import Polyglot.Decl.Grammar
import Polyglot.Proofs.Expr.Acceptance
import Polyglot.Proofs.Ty.Derivation

/-!
# Derivations of declarations

The grammars of unions and of equations as relations between tokens and declarations.

Results:
1. `reads_union`, `derivesEquation_of_ok`: a declaration that is read is derived.
2. `accepts_union`: a derived union is read.
3. `equation_eq_body`: an equation with a signature is read up to its equals sign, so that reading
   it comes down to reading the expression behind the sign.
-/

namespace Polyglot.Grammar

open Polyglot.Parser

/-! ## Unions -/

inductive DerivesField : List Token → Binding → Prop
  | mk {name : String} {pos : Position} {colon : Token} {ts : List Token} {ty : Ty} :
      colon.lexeme = .symbol .colon → DerivesType .element ts ty →
      DerivesField (⟨.ident name, pos⟩ :: colon :: ts) ⟨name, ty⟩

inductive DerivesTag : List Token → Tag → Prop
  | plain {name : String} {pos : Position} : isUpperName name = true →
      DerivesTag [⟨.ident name, pos⟩] ⟨name, []⟩
  | record {name : String} {pos : Position} {opening : Token} {ts : List Token}
      {fields : List Binding} : isUpperName name = true → opening.lexeme = .symbol .openBrace →
      Enclosed .closeBrace DerivesField ts fields →
      DerivesTag (⟨.ident name, pos⟩ :: opening :: ts) ⟨name, fields⟩

inductive DerivesUnion : List Token → Union → Prop
  | mk {word equals : Token} {name : String} {pos : Position} {params bar ts us : List Token}
      {names : List String} {first : Tag} {rest : List Tag} :
      word.lexeme = .keyword .typeWord → isUpperName name = true →
      params.map Token.lexeme = names.map Lexeme.ident → equals.lexeme = .symbol .equals →
      bar.map Token.lexeme = [] ∨ bar.map Token.lexeme = [.symbol .bar] → DerivesTag ts first →
      Many (After (fun t => t.lexeme = .symbol .bar) DerivesTag) us rest →
      DerivesUnion (word :: ⟨.ident name, pos⟩ :: (params ++ equals :: (bar ++ (ts ++ us))))
        ⟨name, names.map .var, first :: rest⟩

theorem reads_tagField (c : Cursor) : tagField.Reads .union c DerivesField := by
  refine (reads_expectIdent c).bind fun ts found c₁ _ hts => ?_
  subst hts
  rw [reads_sees]
  split
  · next hcolon =>
    have hsee : c₁.lexeme? = some (.symbol .colon) := by simpa using hcolon
    refine (reads_advance hsee).bind fun us _ c₂ _ hus => ?_
    obtain ⟨colon, rfl, hcolon⟩ := hus
    refine (reads_typeElement c₂).bind fun vs ty _ _ hvs => reads_pure ?_
    rw [List.append_nil]
    exact .mk hcolon hvs
  · exact reads_fail _

/-- A lower-case name is blamed where it stands. -/
theorem reads_upperName (problem : String → Problem) (c : Cursor) :
    (upperName problem).Reads .union c fun ts name =>
      isUpperName name = true ∧ ∃ pos, ts = [⟨.ident name, pos⟩] := by
  have hident : (expectIdent .union).Reads .union c fun ts found =>
      ts = [⟨.ident found.1, found.2⟩] := reads_expectIdent c
  unfold Reads at hident ⊢
  simp only [upperName, Bind.bind, EStateM.bind]
  cases hread : (expectIdent .union) c with
  | error d after =>
    rw [hread] at hident
    exact hident
  | ok found after =>
    rw [hread] at hident
    obtain ⟨ts, hspan, rfl⟩ := hident
    dsimp only
    cases hupper : isUpperName found.1 with
    | true => exact ⟨_, hspan, hupper, found.2, rfl⟩
    | false => exact ⟨rfl, _, hspan, .inr ⟨_, List.mem_cons_self, rfl⟩⟩

theorem reads_tag (c : Cursor) : tag.Reads .union c DerivesTag := by
  refine (reads_upperName _ c).bind fun ts name c₁ _ hts => ?_
  obtain ⟨hupper, pos, rfl⟩ := hts
  rw [reads_sees]
  split
  · next hopen =>
    have hsee : c₁.lexeme? = some (.symbol .openBrace) := by simpa using hopen
    refine (reads_advance hsee).bind fun us _ c₂ _ hus => ?_
    obtain ⟨opening, rfl, hopening⟩ := hus
    refine (reads_enclosed (k := c₂.rest.length) (fun c _ => reads_tagField c)
      (Nat.le_refl _)).bind fun vs fields _ _ hvs => reads_pure ?_
    rw [List.append_nil]
    exact .record hupper hopening hvs
  · exact reads_pure (.plain hupper)

/-- The bar before the first tag may be missing. -/
theorem reads_bar {α : Type} {p : Parser α} {c : Cursor} {P : List Token → α → Prop}
    (h : ∀ bar after, c.Spans bar after →
      bar.map Token.lexeme = [] ∨ bar.map Token.lexeme = [.symbol .bar] →
      p.Reads .union after fun us a => P (bar ++ us) a) :
    (do if ← sees (.symbol .bar) then advance
        p : Parser α).Reads .union c P := by
  rw [reads_sees]
  split
  · next hbar =>
    have hsee : c.lexeme? = some (.symbol .bar) := by simpa using hbar
    refine (reads_advance hsee).bind fun ts _ after hspan hts => h ts after hspan (.inr ?_)
    obtain ⟨bar, rfl, hbar⟩ := hts
    rw [List.map_singleton, hbar]
  · exact h [] c (.refl c) (.inl rfl)

theorem reads_union (c : Cursor) :
    union.Reads .union c fun ts declared => ts = c.rest ∧ DerivesUnion ts declared := by
  refine (reads_expect c _).bind fun ts _ c₁ h₁ hts => ?_
  obtain ⟨word, rfl, hword⟩ := hts
  refine (reads_upperName _ c₁).bind fun us name c₂ h₂ hus => ?_
  obtain ⟨hupper, pos, rfl⟩ := hus
  refine (reads_names c₂).bind fun params names c₃ h₃ hparams => ?_
  refine (reads_expect c₃ _).bind fun ts' _ c₄ h₄ hts' => ?_
  obtain ⟨equals, rfl, hequals⟩ := hts'
  refine reads_bar fun bar c₅ h₅ hbar => ?_
  refine (reads_tag c₅).bind fun vs first c₆ h₆ hvs => ?_
  refine (reads_manyAfter (k := c₆.rest.length) (fun c _ => reads_tag c) (Nat.le_refl _)).bind
    fun ws rest c₇ h₇ hws => ?_
  refine (reads_expectEnd c₇).bind fun xs _ _ _ hxs => reads_pure ?_
  obtain ⟨rfl, hend⟩ := hxs
  refine ⟨?_, ?_⟩
  · rw [h₁.rest, h₂.rest, h₃.rest, h₄.rest, h₅.rest, h₆.rest, h₇.rest, hend, List.append_nil]
  · simp only [List.append_nil, List.cons_append, List.nil_append]
    exact .mk hword hupper hparams hequals hbar hvs hws

theorem accepts_tagField {past ts rest : List Token} {declared : Binding}
    (h : DerivesField ts declared) (hrest : Ends rest) :
    tagField.Accepts past ts declared rest := by
  cases h with
  | @mk name pos colon ts ty hcolon hty =>
    refine accepts_expectIdent name pos (accepts_sees ?_)
    simp only [List.cons_append, List.head?_cons, Option.map_some, hcolon, beq_self_eq_true,
      if_true]
    exact accepts_advance colon ((accepts_typeElement hty hrest).map _)

theorem accepts_upperName {α : Type} {problem : String → Problem} {f : String → Parser α}
    {name : String} {pos : Position} {past us rest : List Token} {a : α}
    (hupper : isUpperName name = true)
    (h : (f name).Accepts (⟨.ident name, pos⟩ :: past) us a rest) :
    (upperName problem >>= f).Accepts past (⟨.ident name, pos⟩ :: us) a rest := by
  have hname : (upperName problem).Accepts past [⟨.ident name, pos⟩] name (us ++ rest) := by
    refine accepts_expectIdent name pos ?_
    dsimp only
    rw [if_pos hupper]
    exact accepts_pure name
  exact hname.bind h

theorem derivesField_starts {us vs : List Token} {declared : Binding}
    (h : DerivesField us declared) :
    (us ++ vs).head?.map Token.lexeme ≠ some (.symbol .closeBrace) := by
  cases h with
  | mk _ _ => simp

theorem accepts_tag {past ts rest : List Token} {declared : Tag} (h : DerivesTag ts declared)
    (hrest : rest.head?.map Token.lexeme ≠ some (.symbol .openBrace)) :
    tag.Accepts past ts declared rest := by
  cases h with
  | @plain name pos hupper =>
    refine accepts_upperName hupper (accepts_sees ?_)
    rw [List.nil_append, if_neg (by simpa using hrest)]
    exact accepts_pure _
  | @record name pos opening ts fields hupper hopening hfields =>
    refine accepts_upperName hupper (accepts_sees ?_)
    simp only [List.cons_append, List.head?_cons, Option.map_some, hopening, beq_self_eq_true,
      if_true]
    refine accepts_advance opening (Accepts.map ?_ _)
    refine accepts_enclosed (by decide) hfields (fun us a vs h => derivesField_starts h)
      (fun past us a vs h _ hnext => accepts_tagField h ?_) (List.cons_ne_nil _ _)
    rcases hnext with hcomma | hclose
    · exact ends_of_symbol .comma hcomma (by decide)
    · exact ends_of_symbol .closeBrace hclose (by decide)

theorem accepts_bar {α : Type} {p : Parser α} {past bar us rest : List Token} {a : α}
    (hbar : bar.map Token.lexeme = [] ∨ bar.map Token.lexeme = [.symbol .bar])
    (hnext : (us ++ rest).head?.map Token.lexeme ≠ some (.symbol .bar))
    (h : p.Accepts (bar.reverse ++ past) us a rest) :
    (do if ← sees (.symbol .bar) then advance
        p : Parser α).Accepts past (bar ++ us) a rest := by
  refine accepts_sees ?_
  rcases hbar with hnone | hone
  · rw [List.map_eq_nil_iff.mp hnone] at h ⊢
    rw [List.nil_append, if_neg (by simpa using hnext)]
    exact h
  · obtain ⟨t, hbar, ht⟩ := List.map_eq_singleton_iff.mp hone
    subst hbar
    simp only [List.cons_append, List.head?_cons, Option.map_some, ht, beq_self_eq_true, if_true]
    exact accepts_advance t h

/-- A derived union is read to its end. -/
theorem accepts_union {past ts : List Token} {declared : Union} (h : DerivesUnion ts declared) :
    union.Accepts past ts declared [] := by
  cases h with
  | @mk word equals name pos params bar ts us names first rest hword hupper hparams hequals hbar
      hfirst hmany =>
    refine accepts_expect hword (accepts_upperName hupper ?_)
    refine (accepts_names ?_ hparams (List.cons_ne_nil _ _)).bind (accepts_expect hequals ?_)
    · simp [hequals, isIdent]
    have hstart : (ts ++ us).head?.map Token.lexeme ≠ some (.symbol .bar) := by
      cases hfirst <;> simp
    refine accepts_bar hbar (by simpa using hstart) ?_
    refine (accepts_tag hfirst ?_).bind ?_
    · cases hmany with
      | nil => simp
      | cons hafter _ =>
        cases hafter with
        | mk ht _ => simp [ht]
    rw [← List.append_nil us]
    refine (accepts_manyAfter (by simp) (fun past vs tag ws hvs hnext => accepts_tag hvs ?_) hmany
      (by cases hfirst <;> simp)).bind (accepts_expectEnd.map _)
    rcases hnext with rfl | hnext
    · simp
    · simp [hnext]

/-! ## Equations -/

inductive DerivesSignature : List Token → String → List Ty → Prop
  | mk {name : String} {pos : Position} {colon : Token} {ts us : List Token} {first : Ty}
      {rest : List Ty} : colon.lexeme = .symbol .colon → DerivesType .element ts first →
      Many (After (fun t => t.lexeme = .symbol .arrow) (DerivesType .element)) us rest →
      DerivesSignature (⟨.ident name, pos⟩ :: colon :: (ts ++ us)) name (first :: rest)

/-- The clause of an equation, which follows what its signature declares, if it has one. -/
inductive DerivesClause (declared : Option (String × List Ty)) : List Token → Decl → Prop
  | mk {name : String} {pos : Position} {params ts : List Token} {names : List String}
      {equals : Token} {body : Expr} {decl : Decl} :
      params.map Token.lexeme = names.map Lexeme.ident → equals.lexeme = .symbol .equals →
      Phrase .expr ts body → declare declared name pos names body = .ok decl →
      DerivesClause declared (⟨.ident name, pos⟩ :: (params ++ equals :: ts)) decl

inductive DerivesEquation : List Token → Decl → Prop
  | plain {ts : List Token} {decl : Decl} : DerivesClause none ts decl → DerivesEquation ts decl
  | signed {signed ts : List Token} {t : Token} {name : String} {types : List Ty} {decl : Decl} :
      DerivesSignature signed name types → t.pos.col = 1 →
      DerivesClause (some (name, types)) (t :: ts) decl → DerivesEquation (signed ++ t :: ts) decl

/-- What is left of an equation behind its equals sign. -/
def clauseBody (declared : Option (String × List Ty)) (name : String) (pos : Position)
    (params : List String) : Parser Decl := do
  let body ← expr
  expectEnd .expression
  match declare declared name pos params body with
  | .ok decl => return decl
  | .error diagnostic => throw diagnostic

/-- What is left of an equation behind its signature. -/
def clause (declared : Option (String × List Ty)) : Parser Decl := do
  let (name, pos) ← expectIdent .signature
  let params ← names .signature
  expect .signature (.symbol .equals)
  clauseBody declared name pos params

theorem equation_signed {c : Cursor} {name : String} (h : signatureName? c = some name) :
    equation c = (signature >>= fun types => clause (some (name, types))) c := by
  unfold equation
  simp only [Bind.bind, EStateM.bind, get, getThe, MonadStateOf.get, EStateM.get, h]
  rfl

theorem equation_unsigned {c : Cursor} (h : signatureName? c = none) :
    equation c = clause none c := by
  unfold equation
  simp only [Bind.bind, EStateM.bind, get, getThe, MonadStateOf.get, EStateM.get, h]
  rfl

/-! ### What is read is derived -/

/-- Behind a signature stands a token that starts a line. -/
theorem derivesSignature_of_ok {c after : Cursor} {name : String} {types : List Ty}
    (hname : signatureName? c = some name) (h : signature c = .ok types after) :
    after.atLineStart = true ∧ ∃ ts, c.Spans ts after ∧ DerivesSignature ts name types := by
  obtain ⟨found, c₁, h₁, h⟩ := bind_eq_ok h
  obtain ⟨_, hspan₁, rfl⟩ := (reads_expectIdent c).of_ok h₁
  obtain ⟨_, c₂, h₂, h⟩ := bind_eq_ok h
  obtain ⟨_, hspan₂, colon, rfl, hcolon⟩ := (reads_expect c₁ _).of_ok h₂
  obtain ⟨first, c₃, h₃, h⟩ := bind_eq_ok h
  obtain ⟨us, hspan₃, hfirst⟩ := (reads_typeElement c₂).of_ok h₃
  obtain ⟨rest, c₄, h₄, h⟩ := bind_eq_ok h
  obtain ⟨vs, hspan₄, hrest⟩ := (reads_manyAfter (k := c₃.rest.length)
    (fun c _ => reads_typeElement c) (Nat.le_refl _)).of_ok h₄
  have hfound : found.1 = name := by
    rw [signatureName?, hspan₁.rest, hspan₂.rest] at hname
    simp only [List.cons_append, List.nil_append] at hname
    split at hname
    · exact Option.some.inj hname
    · cases hname
  change (if c₄.atLineStart = true then pure (first :: rest) else
    fail .signature .expectedEquation : Parser (List Ty)) c₄ = .ok types after at h
  split at h
  · next hline =>
    cases h
    subst hfound
    refine ⟨hline, _, hspan₁.trans (hspan₂.trans (hspan₃.trans hspan₄)), ?_⟩
    show DerivesSignature (⟨.ident found.1, found.2⟩ :: colon :: (us ++ vs)) _ _
    exact .mk hcolon hfirst hrest
  · cases h

theorem derivesClause_of_ok {declared : Option (String × List Ty)} {c after : Cursor} {decl : Decl}
    (h : clause declared c = .ok decl after) : DerivesClause declared c.rest decl := by
  obtain ⟨found, c₁, h₁, h⟩ := bind_eq_ok h
  obtain ⟨_, hspan₁, rfl⟩ := (reads_expectIdent c).of_ok h₁
  obtain ⟨names, c₂, h₂, h⟩ := bind_eq_ok h
  obtain ⟨params, hspan₂, hparams⟩ := (reads_names c₁).of_ok h₂
  obtain ⟨_, c₃, h₃, h⟩ := bind_eq_ok h
  obtain ⟨_, hspan₃, equals, rfl, hequals⟩ := (reads_expect c₂ _).of_ok h₃
  obtain ⟨body, c₄, h₄, h⟩ := bind_eq_ok h
  obtain ⟨us, hspan₄, hbody⟩ := (reads_expr c₃).of_ok h₄
  obtain ⟨_, c₅, h₅, h⟩ := bind_eq_ok h
  obtain ⟨_, _, rfl, hend⟩ := (reads_expectEnd c₄).of_ok h₅
  have hdecl : declare declared found.1 found.2 names body = .ok decl := by
    cases hdecl : declare declared found.1 found.2 names body with
    | ok made =>
      rw [hdecl] at h
      cases h
      rfl
    | error d =>
      rw [hdecl] at h
      cases h
  rw [hspan₁.rest, hspan₂.rest, hspan₃.rest, hspan₄.rest, hend, List.append_nil]
  exact .mk hparams hequals hbody hdecl

/-- What the parser of equations returns is derived by the grammar. -/
theorem derivesEquation_of_ok {c after : Cursor} {decl : Decl} (h : equation c = .ok decl after) :
    DerivesEquation c.rest decl := by
  cases hname : signatureName? c with
  | none =>
    rw [equation_unsigned hname] at h
    exact .plain (derivesClause_of_ok h)
  | some name =>
    rw [equation_signed hname] at h
    obtain ⟨types, c₁, h₁, h⟩ := bind_eq_ok h
    obtain ⟨hline, signed, hspan, hsigned⟩ := derivesSignature_of_ok hname h₁
    have hclause := derivesClause_of_ok h
    rw [Cursor.atLineStart] at hline
    rw [hspan.rest]
    cases hrest : c₁.rest with
    | nil => simp [hrest] at hline
    | cons t ts =>
      rw [hrest] at hline hclause
      simp only [Bool.and_eq_true, beq_iff_eq] at hline
      exact .signed hsigned hline.1 hclause

/-! ### What is derived is read -/

theorem accepts_signature {past signed rest : List Token} {name : String} {types : List Ty}
    {t : Token} (h : DerivesSignature signed name types) (hident : isIdent (some t.lexeme) = true)
    (hcol : t.pos.col = 1) : signature.Accepts past signed types (t :: rest) := by
  cases h with
  | @mk name pos colon ts us first others hcolon hfirst hmany =>
    have hline : Ends (t :: rest) := ends_of_col hcol
    have harrow : t.lexeme ≠ .symbol .arrow := by
      rintro heq
      rw [heq] at hident
      cases hident
    refine accepts_expectIdent name pos (accepts_expect hcolon ?_)
    refine (accepts_typeElement hfirst ?_).bind ?_
    · cases hmany with
      | nil => exact hline
      | cons hafter _ =>
        cases hafter with
        | mk ht _ => exact ends_of_symbol .arrow (by simp [ht]) (by decide)
    rw [← List.append_nil us]
    refine (accepts_manyAfter (by simpa using harrow) (fun past vs ty ws hvs hnext => ?_) hmany
      (by simp)).bind fun finish => ?_
    · refine accepts_typeElement hvs ?_
      rcases hnext with rfl | hnext
      · exact hline
      · exact ends_of_symbol .arrow hnext (by decide)
    · simp [Bind.bind, EStateM.bind, get, getThe, MonadStateOf.get, EStateM.get,
        Cursor.atLineStart, hcol]
      rfl

/-- A clause is read up to its equals sign, whatever stands behind it. -/
theorem clause_eq_body {declared : Option (String × List Ty)} {past params ts : List Token}
    {name : String} {pos : Position} {found : List String} {equals : Token} (finish : Position)
    (hparams : params.map Token.lexeme = found.map Lexeme.ident)
    (hequals : equals.lexeme = .symbol .equals) :
    ∃ before, clause declared ⟨past, ⟨.ident name, pos⟩ :: (params ++ equals :: ts), finish⟩ =
      clauseBody declared name pos found ⟨before, ts, finish⟩ := by
  have hname : (expectIdent .signature).Accepts past [⟨.ident name, pos⟩] (name, pos)
      (params ++ equals :: ts) := fun _ => rfl
  have hnames : (names .signature).Accepts (⟨.ident name, pos⟩ :: past) params found
      (equals :: ts) :=
    accepts_names (by simp [hequals, isIdent]) hparams (List.cons_ne_nil _ _)
  have hsign : (expect .signature (.symbol .equals)).Accepts
      (params.reverse ++ ⟨.ident name, pos⟩ :: past) [equals] () ts := by
    have hpure : (expect .signature (.symbol .equals) >>= pure).Accepts
        (params.reverse ++ ⟨.ident name, pos⟩ :: past) [equals] () ts :=
      accepts_expect hequals (accepts_pure ())
    rwa [bind_pure] at hpure
  refine ⟨equals :: (params.reverse ++ ⟨.ident name, pos⟩ :: past), ?_⟩
  refine (hname.bind_eq _ finish).trans ?_
  refine (hnames.bind_eq _ finish).trans ?_
  exact hsign.bind_eq _ finish

/-- An equation with a signature is read up to its equals sign, whatever stands behind it. -/
theorem equation_eq_body {past signed params ts : List Token} {declared name : String}
    {types : List Ty} {pos : Position} {found : List String} {equals : Token} (finish : Position)
    (h : DerivesSignature signed declared types) (hcol : pos.col = 1)
    (hparams : params.map Token.lexeme = found.map Lexeme.ident)
    (hequals : equals.lexeme = .symbol .equals) :
    ∃ before,
      equation ⟨past, signed ++ ⟨.ident name, pos⟩ :: (params ++ equals :: ts), finish⟩ =
        clauseBody (some (declared, types)) name pos found ⟨before, ts, finish⟩ := by
  have hname : signatureName?
      ⟨past, signed ++ ⟨.ident name, pos⟩ :: (params ++ equals :: ts), finish⟩ = some declared := by
    cases h with
    | mk hcolon _ _ => simp [signatureName?, hcolon, Lexeme.text, Symbol.spelling]
  have hsigned : signature.Accepts past signed types
      (⟨.ident name, pos⟩ :: (params ++ equals :: ts)) :=
    accepts_signature h rfl hcol
  rw [equation_signed hname, hsigned.bind_eq]
  exact clause_eq_body finish hparams hequals

theorem clauseBody_eq_ok {declared : Option (String × List Ty)} {name : String} {pos : Position}
    {found : List String} {before ts : List Token} {finish : Position} {body : Expr} {decl : Decl}
    (h : Phrase .expr ts body) (hdecl : declare declared name pos found body = .ok decl) :
    ∃ after, clauseBody declared name pos found ⟨before, ts, finish⟩ = .ok decl after := by
  have hbody : expr.Accepts before ts body [] := accepts_expr h Nat.one_pos
  have hlast := hbody.bind_eq (fun body => do
    expectEnd .expression
    match declare declared name pos found body with
    | .ok decl => return decl
    | .error diagnostic => throw diagnostic : Expr → Parser Decl) finish
  rw [List.append_nil] at hlast
  refine ⟨⟨ts.reverse ++ before, [], finish⟩, hlast.trans ?_⟩
  simp only [hdecl]
  rfl

/-- Without an expression behind the equals sign there is no equation. -/
theorem clauseBody_eq_error {declared : Option (String × List Ty)} {name : String} {pos : Position}
    {found : List String} {before ts : List Token} {finish : Position}
    (h : ∀ e, ¬ Phrase .expr ts e) :
    ∃ d after, clauseBody declared name pos found ⟨before, ts, finish⟩ = .error d after := by
  cases hbody : clauseBody declared name pos found ⟨before, ts, finish⟩ with
  | error d after => exact ⟨d, after, rfl⟩
  | ok decl after =>
    obtain ⟨e, c₁, h₁, hrest⟩ := bind_eq_ok hbody
    obtain ⟨us, hspan, hderives⟩ := (reads_expr _).of_ok h₁
    obtain ⟨_, c₂, h₂, _⟩ := bind_eq_ok hrest
    obtain ⟨_, _, _, hend⟩ := (reads_expectEnd c₁).of_ok h₂
    have hall : ts = us := by simpa [hend] using hspan.rest
    exact absurd (hall ▸ hderives) (h e)

end Polyglot.Grammar
