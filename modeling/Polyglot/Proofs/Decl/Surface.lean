import Polyglot.Proofs.Decl.Normal
import Polyglot.Proofs.Decl.Parameters
import Polyglot.Proofs.Decl.Proper
import Polyglot.Proofs.Expr.Survey

/-!
# Declarations written down

The derw dialect writes a proper declaration as one or two lines at the margin and indented lines
below them.

Results:
1. `Decl.Proper.written`: the lines of a proper declaration.
2. `outcome_union`, `outcome_equation`: the tokens of these lines are read as the normal form of
   the declaration, unless its body compares the result of a comparison.
-/

namespace Polyglot

open Grammar

/-! ## Lines -/

def Binding.lexemes (binding : Binding) : List Lexeme :=
  .ident binding.name :: .symbol .colon :: binding.type.lexemes false

def Tag.lexemes (tag : Tag) : List Lexeme :=
  .ident tag.name ::
    if tag.fields.isEmpty then []
    else inBrackets .openBrace .closeBrace (tag.fields.map Binding.lexemes)

namespace Union

/-- The first line of a union. -/
def headLine (union : Union) : String :=
  "type " ++ " ".intercalate (union.name :: union.boundNames) ++ " ="

def headLexemes (union : Union) : List Lexeme :=
  .keyword .typeWord :: .ident union.name :: (union.boundNames.map Lexeme.ident ++ [.symbol .equals])

def tagLexemes (union : Union) : List Lexeme :=
  [.symbol .bar].intercalate (union.tags.map Tag.lexemes)

end Union

namespace Equation

/-- The types on the signature line. -/
def types (equation : Equation) : List Ty :=
  if equation.params.isEmpty then Surface.constTypes equation.result else equation.signature

def signatureLine (equation : Equation) : String :=
  Surface.signatureLine .derw equation.name equation.types

def paramNames (equation : Equation) : List String :=
  equation.params.map Binding.name

/-- The line with the name, the parameters and the equals sign. -/
def clauseLine (equation : Equation) : String :=
  " ".intercalate (equation.name :: equation.paramNames) ++ " ="

end Equation

/-- The lines of a declaration in the derw dialect. -/
inductive Decl.Written : Decl → List String → Prop
  | union {declared : Union} {lines : List String} : declared.Proper → lines ≠ [] →
      Many Indented declared.tagLexemes lines →
      Written (.union declared) (declared.headLine :: lines)
  | equation {declared : Equation} {lines : List String} : declared.Proper → lines ≠ [] →
      Many Indented declared.body.bodyLexemes lines →
      Written (declaration declared) (declared.signatureLine :: declared.clauseLine :: lines)

/-! ## Unions -/

theorem Tag.text_spelled {tag : Tag} (h : tag.Proper) :
    Spelled (Surface.tagText .derw tag) tag.lexemes := by
  unfold Surface.tagText Tag.lexemes
  split
  · exact spelled_ident h.name
  · next hfields =>
    have hne : tag.fields ≠ [] := by simpa using hfields
    have hparts : List.Forall₂ Spelled
        (tag.fields.map fun field =>
          field.name ++ Surface.typeMark .derw ++ Surface.typeText .derw false field.type)
        (tag.fields.map Binding.lexemes) := by
      rw [List.forall₂_map_left_iff, List.forall₂_map_right_iff, List.forall₂_same]
      intro field hfield
      exact spelled_labelled (h.fields field hfield).name
        (typeText_spelled (h.fields field hfield).type)
    have hrecord := spelled_brackets .openBrace .closeBrace hparts (by simpa using hne)
    have hspelled := (spelled_ident h.name).spaced hrecord
    simp only [Symbol.spelling, String.append_assoc] at hspelled ⊢
    exact hspelled

namespace Union

theorem typeTexts_vars (nested : Bool) (names : List String) :
    Surface.typeTexts .derw nested (names.map Ty.var) = names := by
  induction names with
  | nil => rfl
  | cons name names ih =>
    rw [List.map_cons, Surface.typeTexts, ih, Surface.typeText, typeName_derw]

theorem unionType_eq {union : Union} (h : union.Proper) :
    Surface.unionType .derw union = " ".intercalate (union.name :: union.boundNames) := by
  obtain ⟨names, hparams, _⟩ := h.params
  rw [boundNames_of_vars hparams, Surface.unionType, hparams]
  cases names with
  | nil => rw [List.map_nil, Surface.typeText, typeName_derw, String.intercalate_singleton]
  | cons name names =>
    rw [List.map_cons, Surface.typeText, ← List.map_cons, typeTexts_vars, typeName_derw,
      String.intercalate_cons_cons]
    rfl

theorem names_plain {union : Union} (h : union.Proper) :
    ∀ name ∈ union.name :: union.boundNames, isPlainName name := by
  obtain ⟨names, hparams, hnames⟩ := h.params
  rw [boundNames_of_vars hparams]
  exact List.forall_mem_cons.mpr ⟨h.name, hnames⟩

theorem headLine_spelled {union : Union} (h : union.Proper) :
    Spelled union.headLine union.headLexemes := by
  have hnames := spelled_names (List.cons_ne_nil _ _) (names_plain h)
  have hspelled := ((spelled_keyword .typeWord).spaced hnames).spaced (spelled_symbol .equals)
  simp only [String.append_assoc] at hspelled
  unfold headLine headLexemes
  rw [String.append_assoc]
  exact hspelled

/-- The indented lines of a union, one for each tag. -/
theorem tagLines_indented {first : Tag} {rest : List Tag} (hfirst : first.Proper)
    (hrest : ∀ tag ∈ rest, tag.Proper) :
    Many Indented ([.symbol .bar].intercalate ((first :: rest).map Tag.lexemes))
      ((indentStep ++ Surface.tagText .derw first) ::
        rest.map fun tag => indentStep ++ "| " ++ Surface.tagText .derw tag) := by
  have hstep : indentStep = indentText 1 := rfl
  rw [List.intercalate_eq_flatMap]
  refine .cons ⟨1, _, Int.one_pos, rfl, Tag.text_spelled hfirst⟩ (Many.map_right ?_)
  rw [List.flatMap_def]
  refine many_of_forall fun tag htag => ⟨1, "| " ++ Surface.tagText .derw tag, Int.one_pos, ?_, ?_⟩
  · rw [hstep, String.append_assoc]
  · exact (spelled_symbol .bar).spaced (Tag.text_spelled (hrest tag htag))

theorem Proper.written {union : Union} (h : union.Proper) :
    ∃ lines, (Decl.union union).Written lines ∧
      Dialect.derw.decl (.union union) 0 = .ok (Text.unlines lines) 0 := by
  obtain ⟨first, rest, htags⟩ := List.exists_cons_of_ne_nil h.tags_ne_nil
  have hproper := h.tags
  rw [htags, List.forall_mem_cons] at hproper
  have hlines := tagLines_indented hproper.1 hproper.2
  rw [← htags] at hlines
  refine ⟨_, .union h (List.cons_ne_nil _ _) hlines, ?_⟩
  have hunion : Surface.union .derw union = .ok (Text.unlines (union.headLine ::
      (indentStep ++ Surface.tagText .derw first) ::
        rest.map fun tag => indentStep ++ "| " ++ Surface.tagText .derw tag)) := by
    simp only [Surface.union, htags, Surface.unionHead, unionType_eq h]
    rfl
  exact Render.lift_eq_ok hunion 0

end Union

/-! ## Equations -/

namespace Equation

theorem run_equationPlan {signature head : String} {body : Expr} {lines : List String}
    (hne : lines ≠ [])
    (hbody : Dialect.derw.render .ownLines body 1 = .ok (Text.unlines lines) 1) :
    Dialect.derw.run (.ok (Dialect.equationPlan signature head body)) 0 =
      .ok (Text.unlines (signature :: head :: lines)) 0 := by
  rw [unlines_cons (List.cons_ne_nil _ _), unlines_cons hne, ← String.append_assoc,
    ← String.append_assoc]
  exact Dialect.run_ok .nil (.cons hbody .nil) rfl

theorem Proper.written {equation : Equation} (h : equation.Proper) :
    ∃ lines, (declaration equation).Written lines ∧
      Dialect.derw.decl (declaration equation) 0 = .ok (Text.unlines lines) 0 := by
  obtain ⟨lines, hne, hlines, hbody⟩ := render_lines h.body (show (0 : Int) < 1 by decide)
  refine ⟨_, .equation h hne hlines, ?_⟩
  rw [Dialect.decl_run]
  unfold declaration signatureLine clauseLine types paramNames
  split
  · next hparams =>
    rw [List.isEmpty_iff.mp hparams, List.map_nil, String.intercalate_singleton]
    exact run_equationPlan hne hbody
  · next hparams =>
    have hnames : equation.params.map Binding.name ≠ [] := by simpa using hparams
    rw [String.intercalate_cons_of_ne_nil hnames]
    exact run_equationPlan hne hbody

theorem constTypes_proper {ty : Ty} (h : ty.Proper false) :
    Surface.constTypes ty ≠ [] ∧ ∀ part ∈ Surface.constTypes ty, part.Proper false := by
  cases h with
  | func hlength hparts =>
    refine ⟨?_, hparts⟩
    rintro rfl
    cases hlength
  | var hname hlower hbuiltin =>
    exact ⟨List.cons_ne_nil _ _, List.forall_mem_singleton.mpr (.var hname hlower hbuiltin)⟩
  | constant hname hkind =>
    exact ⟨List.cons_ne_nil _ _, List.forall_mem_singleton.mpr (.constant hname hkind)⟩
  | applied hname hne hargs =>
    exact ⟨List.cons_ne_nil _ _, List.forall_mem_singleton.mpr (.applied hname hne hargs)⟩

theorem signature_proper {equation : Equation} (h : equation.Proper) :
    ∀ ty ∈ equation.signature, ty.Proper false := by
  unfold signature
  rw [List.forall_mem_append]
  refine ⟨fun ty hty => ?_, List.forall_mem_singleton.mpr h.result⟩
  obtain ⟨param, hparam, rfl⟩ := List.mem_map.mp hty
  exact (h.params param hparam).type

theorem types_proper {equation : Equation} (h : equation.Proper) :
    equation.types ≠ [] ∧ ∀ ty ∈ equation.types, ty.Proper false := by
  unfold types
  split
  · exact constTypes_proper h.result
  · exact ⟨List.append_ne_nil_of_right_ne_nil _ (List.cons_ne_nil _ _), signature_proper h⟩

theorem names_plain {equation : Equation} (h : equation.Proper) :
    ∀ name ∈ equation.name :: equation.paramNames, isPlainName name := by
  refine List.forall_mem_cons.mpr ⟨h.name, fun name hname => ?_⟩
  obtain ⟨param, hparam, rfl⟩ := List.mem_map.mp hname
  exact (h.params param hparam).name

theorem signatureLine_spelled {equation : Equation} (h : equation.Proper) :
    Spelled equation.signatureLine (.ident equation.name :: .symbol .colon ::
      [.symbol .arrow].intercalate (Ty.lexemesAll false equation.types)) :=
  spelled_labelled h.name (signature_spelled (types_proper h).1 (types_proper h).2)

theorem clauseLine_spelled {equation : Equation} (h : equation.Proper) :
    Spelled equation.clauseLine
      (.ident equation.name :: (equation.paramNames.map Lexeme.ident ++ [.symbol .equals])) := by
  have hnames := spelled_names (List.cons_ne_nil _ _) (names_plain h)
  have hspelled := hnames.spaced (spelled_symbol .equals)
  unfold clauseLine
  simp only [String.append_assoc] at hspelled ⊢
  exact hspelled

end Equation

/-- A proper declaration is written as its lines. -/
theorem Decl.Proper.written {decl : Decl} (h : decl.Proper) :
    ∃ lines, decl.Written lines ∧ Dialect.derw.decl decl 0 = .ok (Text.unlines lines) 0 := by
  cases h with
  | union h => exact h.written
  | equation h => exact h.written

/-! ## Reading the lines again -/

/-- Whether no comparison in the declaration has a comparison as its right operand. -/
def Decl.unchained : Decl → Bool
  | .function equation | .const equation => equation.body.unchained
  | .union _ | .unknown _ => true

/-- What is left of a declaration that was written down and read again. -/
def Decl.reread (decl : Decl) : Option Decl :=
  if decl.unchained then some decl.normal else none

theorem derivesField_lexemes {field : Binding} (h : field.Proper) {ts : List Token}
    (hts : WrittenAs field.lexemes ts) : DerivesField ts field.normal := by
  obtain ⟨⟨_, pos⟩, us, rfl, rfl, _, hus⟩ := writtenAs_cons hts
  obtain ⟨colon, vs, rfl, hcolon, _, hvs⟩ := writtenAs_cons hus
  exact .mk hcolon (derivesType_lexemes h.type vs hvs)

theorem derivesTag_lexemes {tag : Tag} (h : tag.Proper) {ts : List Token}
    (hts : WrittenAs tag.lexemes ts) : DerivesTag ts tag.normal := by
  obtain ⟨⟨_, pos⟩, us, rfl, rfl, _, hus⟩ := writtenAs_cons hts
  obtain ⟨name, fields⟩ := tag
  cases fields with
  | nil =>
    rw [writtenAs_nil hus]
    exact .plain h.upper
  | cons first rest =>
    obtain ⟨opening, vs, rfl, hopening, _, hvs⟩ := writtenAs_cons hus
    rw [List.intercalate_eq_flatMap, List.append_assoc] at hvs
    obtain ⟨ws, xs, rfl, hws, hxs⟩ := writtenAs_append hvs
    obtain ⟨ys, zs, rfl, hys, hzs⟩ := writtenAs_append hxs
    obtain ⟨closing, _, rfl, hclosing, _, hnil⟩ := writtenAs_cons hzs
    rw [writtenAs_nil hnil]
    have hfields := List.forall_mem_cons.mp h.fields
    refine .record h.upper hopening (.cons (derivesField_lexemes hfields.1 hws) ?_ hclosing)
    exact hys.manyAfter fun field hfield us hus => derivesField_lexemes (hfields.2 field hfield) hus

theorem derivesUnion_lexemes {union : Union} (h : union.Proper) {ts us : List Token}
    (hts : ts.map Token.lexeme = union.headLexemes) (hus : WrittenAs union.tagLexemes us) :
    DerivesUnion (ts ++ us) union.normal := by
  obtain ⟨names, hparams, hnames⟩ := h.params
  obtain ⟨first, rest, htags⟩ := List.exists_cons_of_ne_nil h.tags_ne_nil
  have hproper := h.tags
  rw [htags, List.forall_mem_cons] at hproper
  rw [Union.headLexemes, Union.boundNames_of_vars hparams] at hts
  obtain ⟨word, vs, rfl, hword, hvs⟩ := List.map_eq_cons_iff.mp hts
  obtain ⟨⟨_, pos⟩, ws, rfl, rfl, hws⟩ := List.map_eq_cons_iff.mp hvs
  obtain ⟨params, xs, rfl, hparamTokens, hxs⟩ := List.map_eq_append_iff.mp hws
  obtain ⟨equals, rfl, hequals⟩ := List.map_eq_singleton_iff.mp hxs
  rw [Union.tagLexemes, htags, List.intercalate_eq_flatMap] at hus
  obtain ⟨ys, zs, rfl, hys, hzs⟩ := writtenAs_append hus
  have htag := derivesTag_lexemes hproper.1 hys
  have hmany := hzs.manyAfter fun tag htag us hus => derivesTag_lexemes (hproper.2 tag htag) hus
  have hunion : union.normal = ⟨union.name, names.map .var, first.normal :: rest.map Tag.normal⟩ := by
    rw [Union.normal, htags, hparams]
    rfl
  rw [hunion]
  have hderives : DerivesUnion (word :: ⟨.ident union.name, pos⟩ ::
      (params ++ equals :: ([] ++ (ys ++ zs)))) _ :=
    .mk hword h.upper hparamTokens hequals (.inl rfl) htag hmany
  simpa using hderives

theorem derivesSignature_lexemes {equation : Equation} (h : equation.Proper) {line : Int}
    {ts : List Token} (hplace : Placed line 1 ts)
    (hts : ts.map Token.lexeme = .ident equation.name :: .symbol .colon ::
      [.symbol .arrow].intercalate (Ty.lexemesAll false equation.types)) :
    DerivesSignature ts equation.name (Ty.normalAll false equation.types) := by
  obtain ⟨⟨_, pos⟩, us, rfl, rfl, hus⟩ := List.map_eq_cons_iff.mp hts
  -- Only the first token of the line stands in its first column.
  have hwritten : WrittenAs _ us := ⟨hus, fun t ht => Nat.ne_of_gt (hplace.2 t ht)⟩
  obtain ⟨colon, vs, rfl, hcolon, _, hvs⟩ := writtenAs_cons hwritten
  obtain ⟨hne, hproper⟩ := Equation.types_proper h
  obtain ⟨first, rest, htypes⟩ := List.exists_cons_of_ne_nil hne
  rw [htypes] at hvs hproper ⊢
  obtain ⟨ws, xs, rfl, hfirst, hmany⟩ :=
    rereads_elements (fun ty hty => derivesType_lexemes (hproper ty hty)) hvs
  rw [Ty.normalAll]
  exact .mk hcolon hfirst hmany

theorem assignTypes_bindings (bindings : List Binding) (result : Ty) :
    assignTypes (bindings.map Binding.name) (bindings.map Binding.type ++ [result]) =
      some (bindings, result) := by
  induction bindings with
  | nil => rfl
  | cons binding bindings ih =>
    rw [List.map_cons, List.map_cons, List.cons_append, assignTypes, ih]
    rfl

theorem equationTypes_constTypes {ty : Ty} (h : ty.Proper false) :
    equationTypes 0 (Ty.normalAll false (Surface.constTypes ty)) = [ty.normal false] := by
  cases h with
  | @func _ parts hlength _ =>
    have hmany : 1 < (Ty.normalAll false parts).length := by
      rw [Ty.normalAll_eq_map, List.length_map]
      exact hlength
    rw [Surface.constTypes, equationTypes, if_pos ⟨rfl, hmany⟩, Ty.normal]
  | var _ _ _ => rfl
  | constant _ _ => rfl
  | applied _ _ _ => rfl

theorem declaration_normal (equation : Equation) :
    (declaration equation).normal = declaration equation.normal := by
  unfold declaration
  rw [Equation.normal, List.isEmpty_map]
  split <;> rfl

/-- The types of the signature line go to the parameters and to the result they came from. -/
theorem declare_types {equation : Equation} (h : equation.Proper) (pos : Position) :
    declare (some (equation.name, Ty.normalAll false equation.types)) equation.name pos
      equation.paramNames equation.body = .ok (declaration equation).normal := by
  have hassign : assignTypes equation.paramNames
      (equationTypes equation.paramNames.length (Ty.normalAll false equation.types)) =
        some (equation.normal.params, equation.normal.result) := by
    unfold Equation.types
    split
    · next hnone =>
      rw [Equation.paramNames, Equation.normal, List.isEmpty_iff.mp hnone]
      exact congrArg (assignTypes []) (equationTypes_constTypes h.result)
    · next hsome =>
      have hcount : ¬ (equation.paramNames.length = 0 ∧
          1 < (Ty.normalAll false equation.signature).length) := by
        rw [Equation.paramNames, List.length_map]
        exact fun hzero => hsome (List.isEmpty_iff.mpr (List.length_eq_zero_iff.mp hzero.1))
      rw [equationTypes, if_neg hcount, Ty.normalAll_eq_map, ← Equation.signature_normal,
        Equation.paramNames, ← names_normal]
      exact assignTypes_bindings _ _
  rw [declare, if_neg (not_not_intro rfl)]
  simp only [hassign]
  rw [declaration_normal]
  rfl

theorem reread_declaration (equation : Equation) :
    (declaration equation).reread =
      if equation.body.unchained then some (declaration equation).normal else none := by
  unfold declaration
  split <;> rfl

/-! ### Outcomes -/

/-- The tokens of a union's lines are read as its normal form. -/
theorem outcome_union {union : Union} (h : union.Proper) {found : Scan} {ts us : List Token}
    (hfound : found.tokens = ts ++ us) (hts : ts.map Token.lexeme = union.headLexemes)
    (hus : WrittenAs union.tagLexemes us) :
    (Block.grammar .union).outcome (Cursor.ofScan found) = .ok (.union union.normal) := by
  have hderives := derivesUnion_lexemes h hts hus
  rw [← hfound] at hderives
  exact Parser.outcome_of_accepts ((accepts_union hderives).map Decl.union)

/-- The tokens of an equation's lines are read as its normal form, or not at all. -/
theorem outcome_equation {declared : Equation} (h : declared.Proper) {found : Scan}
    {line line' : Int} {ts us vs : List Token} (hfound : found.tokens = ts ++ (us ++ vs))
    (hplace : Placed line 1 ts)
    (hts : ts.map Token.lexeme = .ident declared.name :: .symbol .colon ::
      [.symbol .arrow].intercalate (Ty.lexemesAll false declared.types))
    (hplace' : Placed line' 1 us)
    (hus : us.map Token.lexeme =
      .ident declared.name :: (declared.paramNames.map Lexeme.ident ++ [.symbol .equals]))
    (hvs : vs.map Token.lexeme = declared.body.bodyLexemes) :
    (equation.outcome (Cursor.ofScan found)).toOption = (declaration declared).reread := by
  have hsigned := derivesSignature_lexemes h hplace hts
  obtain ⟨⟨_, pos⟩, ws, rfl, rfl, hws⟩ := List.map_eq_cons_iff.mp hus
  obtain ⟨params, xs, rfl, hparams, hxs⟩ := List.map_eq_append_iff.mp hws
  obtain ⟨equals, rfl, hequals⟩ := List.map_eq_singleton_iff.mp hxs
  have hcol : pos.col = 1 := congrArg Position.col hplace'.1
  have hcursor : Cursor.ofScan found = ⟨[], ts ++ ⟨.ident declared.name, pos⟩ ::
      (params ++ equals :: vs), found.finish⟩ := by
    rw [Cursor.ofScan, hfound]
    simp
  obtain ⟨before, hread⟩ : ∃ before, equation (Cursor.ofScan found) =
      clauseBody (some (declared.name, Ty.normalAll false declared.types)) declared.name pos
        declared.paramNames ⟨before, vs, found.finish⟩ := by
    rw [hcursor]
    exact equation_eq_body found.finish hsigned hcol hparams hequals
  rw [Parser.outcome, hread, reread_declaration]
  cases hgood : declared.body.unchained with
  | true =>
    have hbody : Phrase .expr vs declared.body := by
      unfold Phrase
      rw [hvs]
      exact derives_bodyLexemes h.body hgood
    obtain ⟨after, hok⟩ := clauseBody_eq_ok hbody (declare_types h pos)
    rw [hok]
    rfl
  | false =>
    have hnone : ∀ e, ¬ Phrase .expr vs e := by
      intro e he
      unfold Phrase at he
      rw [hvs] at he
      exact not_derives_bodyLexemes h.body hgood e he
    obtain ⟨d, after, herror⟩ := clauseBody_eq_error hnone
    rw [herror]
    rfl

end Polyglot
