import Polyglot.Proofs.Dialect.Literals
import Polyglot.Proofs.Program.Totality

/-!
# Literals of programs

A text that is generated for a target holds the strings of the program as literals, in the order of
the declarations, and each closes on its line. The scripts add the names of tags, with which values
of a union are told apart. Outside the literals all brackets are matched, so no string can end early
or take code along (`generate_literals`).
-/

namespace Polyglot

open Text Render

/-! ## Literals of declarations -/

namespace Dialect

/-- The literals that are written for a tag. A script has one in the function that makes values of
the tag, and one in its record type if it has types. -/
def tagLiterals : Dialect → Tag → List String
  | .styled (.script .typescript), tag => [tag.name, tag.name]
  | .styled (.script _), tag => [tag.name]
  | _, _ => []

/-- The literals in the text of a declaration. -/
def literals (dialect : Dialect) : Decl → List String
  | .union union => union.tags.flatMap dialect.tagLiterals
  | .function equation | .const equation => equation.body.strings
  | .unknown _ => []

end Dialect

/-! ## Names of type parameters -/

theorem Ty.Proper.vars_plain {nested : Bool} {ty : Ty} (h : ty.Proper nested) :
    ∀ name ∈ ty.vars, isPlainName name := by
  induction h with
  | var hname _ _ => exact List.forall_mem_singleton.mpr hname
  | constant _ _ => exact fun name hname => absurd hname List.not_mem_nil
  | applied _ _ _ ih | func _ _ ih =>
    intro name hname
    rw [vars, varsAll_eq_flatMap] at hname
    obtain ⟨ty, hty, hmem⟩ := List.mem_flatMap.mp hname
    exact ih ty hty name hmem

theorem Equation.Proper.parameters_plain {equation : Equation} (h : equation.Proper) :
    ∀ name ∈ Ty.parameters equation.signature, isPlainName name := by
  intro name hname
  rw [Ty.parameters, List.mem_eraseDups, Ty.varsAll_eq_flatMap] at hname
  obtain ⟨ty, hty, hmem⟩ := List.mem_flatMap.mp (List.mem_of_mem_filter hname)
  exact (Equation.signature_proper h ty hty).vars_plain name hmem

theorem Union.Proper.named {union : Union} (h : union.Proper) : union.Named := by
  obtain ⟨names, hparams, _⟩ := h.params
  exact Union.named_of_vars hparams

theorem Union.Proper.boundIn_plain {union : Union} (h : union.Proper) (tag : Tag) :
    ∀ name ∈ union.boundIn tag, isPlainName name := by
  intro name hname
  exact Union.names_plain h name (List.mem_cons_of_mem _ (List.mem_of_mem_filter hname))

/-! ## Declarations of the scripts -/

namespace Script

/-- The first line of a function, which opens its body. -/
theorem weaves_functionHead {name generics params result : String} (hname : isPlainName name)
    (hgenerics : Weaves [] [] generics []) (hparams : Weaves [] [] params [])
    (hresult : Weaves [] [] result []) :
    Weaves [] ['\x7d']
      ("function " ++ name ++ generics ++ "(" ++ params ++ ")" ++ result ++ " \x7b") [] := by
  have hfront : Weaves [] [] ("function " ++ name ++ generics) [] :=
    ((weaves_code [] (by decide)).part (weaves_name hname)).part hgenerics
  exact ((((hfront.code [')'] (by decide)).part hparams).code [] (by decide)).part hresult).code
    _ (by decide)

section Unions

variable {declared : Union} {tag : Tag}

theorem fieldTypes_weaves (h : tag.Proper) :
    IfOk (fieldTypes tag) fun texts => ∀ text ∈ texts, Weaves [] [] text [] := by
  refine ifOk_mapM_all fun field hfield => ?_
  refine (typeText_weaves (h.fields field hfield).type).map fun text htext => ?_
  exact ((weaves_name (h.fields field hfield).name).code [] (by decide)).part htext

theorem tagType_weaves (hunion : declared.Proper) (h : tag.Proper) :
    IfOk (tagType declared tag) (Weaves [] [] · []) := by
  rw [tagType_eq_ok hunion.named]
  exact ifOk_ok ((weaves_name h.name).part (angled_weaves (hunion.boundIn_plain tag)))

/-- A line that gives the name of a tag. -/
theorem weaves_kind (front back : String) (hfront : isCode [] [] front = true)
    (hback : isCode [] [] back = true) (h : tag.Proper) :
    Weaves [] [] (front ++ "kind: \"" ++ tag.name ++ ("\"" ++ back)) [tag.name] := by
  have hquoted : front ++ "kind: \"" ++ tag.name ++ ("\"" ++ back) =
      front ++ "kind: " ++ ("\"" ++ tag.name ++ "\"") ++ back := by
    rw [show "kind: \"" = "kind: " ++ "\"" from rfl]
    simp only [String.append_assoc]
  rw [hquoted]
  exact (((weaves_code [] hfront).code [] (by decide)).part (weaves_quoted h.name)).code [] hback

theorem tagAlias_weaves (hunion : declared.Proper) (h : tag.Proper) :
    IfOk (tagAlias .typescript declared tag) fun alias? =>
      Chain [] [] alias?.toList [tag.name] := by
  refine (tagType_weaves hunion h).bind fun name hname => ?_
  refine (fieldTypes_weaves h).map fun fields hfields => ?_
  have hhead : Weaves [] ['\x7d'] ("type " ++ name ++ " = \x7b") [] :=
    ((weaves_code [] (by decide)).part hname).code _ (by decide)
  have hkind : Weaves [] [] (indentStep ++ "kind: \"" ++ tag.name ++ "\";") [tag.name] :=
    weaves_kind indentStep ";" (by decide) (by decide) h
  have hlines : ∀ line ∈ fields.map fun text => indentStep ++ text ++ ";",
      Weaves [] [] line [] :=
    List.forall_mem_map.mpr fun text htext => (hfields text htext).around [] (by decide) (by decide)
  have hrest : Chain ['\x7d'] []
      ((fields.map fun text => indentStep ++ text ++ ";") ++ ["\x7d;"]) [] :=
    (chain_of_forall hlines ['\x7d']).append (.plain (weaves_code [] (by decide)) .nil)
  have hall := Chain.plain hhead (.cons (hkind.frame ['\x7d']) hrest)
  exact .cons (hall.joined (by decide)) .nil

theorem factoryParams_weaves (script : Script) (h : tag.Proper) :
    IfOk (script.factoryParams tag) (Weaves [] [] · []) := by
  cases script with
  | javascript => exact ifOk_ok (weaves_code [] (by decide))
  | typescript =>
    refine (fieldTypes_weaves h).map fun fields hfields => ?_
    split
    · exact weaves_code [] (by decide)
    · exact (weaves_separated hfields ", " (by decide)).around ['\x7d'] (by decide) (by decide)
  | bare => exact ifOk_error _

theorem factoryReturn_weaves (script : Script) (hunion : declared.Proper) (h : tag.Proper) :
    IfOk (script.factoryReturn declared tag) (Weaves [] [] · []) := by
  cases script with
  | javascript => exact ifOk_ok weaves_empty
  | typescript =>
    exact (tagType_weaves hunion h).map fun name hname => (weaves_code [] (by decide)).part hname
  | bare => exact ifOk_error _

theorem factory_weaves (script : Script) (hunion : declared.Proper) (h : tag.Proper) :
    IfOk (script.factory declared tag) (Weaves [] [] · [tag.name]) := by
  have hnames : IfOk (tagParams declared tag) fun names => ∀ name ∈ names, isPlainName name := by
    rw [tagParams_eq_ok hunion.named]
    exact ifOk_ok (hunion.boundIn_plain tag)
  refine hnames.bind fun names hnames => ?_
  refine (script.typeParams_weaves hnames).bind fun generics hgenerics => ?_
  refine (script.factoryParams_weaves h).bind fun params hparams => ?_
  refine (script.factoryReturn_weaves hunion h).map fun result hresult => ?_
  have hhead := weaves_functionHead h.name hgenerics hparams hresult
  have hkind : Weaves [] [] (indentStep ++ indentStep ++ "kind: \"" ++ tag.name ++ "\",")
      [tag.name] :=
    weaves_kind (indentStep ++ indentStep) "," (by decide) (by decide) h
  -- behind the first two lines the function and the record that it returns are open
  have hrest : Chain ['\x7d', '\x7d'] []
      [indentStep ++ indentStep ++ "...args,", indentStep ++ "\x7d;", "\x7d"] [] :=
    .plain (weaves_code ['\x7d', '\x7d'] (by decide)) (.plain (weaves_code ['\x7d'] (by decide))
      (.plain (weaves_code [] (by decide)) .nil))
  have hreturn : Weaves ['\x7d'] ['\x7d', '\x7d'] (indentStep ++ "return \x7b") [] :=
    weaves_code _ (by decide)
  have hall := Chain.plain hhead (.plain hreturn (.cons (hkind.frame ['\x7d', '\x7d']) hrest))
  exact hall.joined (by decide)

theorem tagParts_weaves (script : Script) (hunion : declared.Proper) (h : tag.Proper) :
    IfOk (script.tagParts declared tag)
      (Chain [] [] · ((Dialect.styled (.script script)).tagLiterals tag)) := by
  cases script with
  | javascript =>
    show IfOk (do let text ← factory .javascript declared tag; return [text])
      (Chain [] [] · [tag.name])
    exact (factory_weaves .javascript hunion h).map fun _ htext => .cons htext .nil
  | typescript =>
    refine (tagAlias_weaves hunion h).bind fun alias? halias => ?_
    exact (factory_weaves .typescript hunion h).map fun _ htext =>
      halias.append (.cons htext .nil)
  | bare => exact ifOk_error _

theorem unionAlias_weaves (script : Script) (h : declared.Proper) :
    IfOk (script.unionAlias declared) fun alias? => Chain [] [] alias?.toList [] := by
  cases script with
  | javascript => exact ifOk_ok .nil
  | typescript =>
    obtain ⟨names, hparams, hnames⟩ := h.params
    have hvars : ∀ ty ∈ declared.params, IfOk (typeText ty) (Weaves [] [] · []) := by
      rw [hparams, List.forall_mem_map]
      exact fun name hname => ifOk_ok (weaves_name (hnames name hname))
    refine (ifOk_mapM_all fun tag htag => tagType_weaves h (h.tags tag htag)).bind
      fun members hmembers => ?_
    refine (named_weaves h.name hvars).map fun name hname => .plain ?_ .nil
    exact ((((weaves_code [] (by decide)).part hname).code [] (by decide)).part
      (weaves_separated hmembers " | " (by decide))).code [] (by decide)
  | bare => exact ifOk_error _

theorem union_weaves (script : Script) (h : declared.Proper) :
    IfOk (script.union declared)
      (Weaves [] [] · ((Dialect.styled (.script script)).literals (.union declared))) := by
  have hparts := ifOk_mapM fun tag htag => script.tagParts_weaves h (h.tags tag htag)
  refine hparts.bind fun parts hparts => ?_
  refine (script.unionAlias_weaves h).map fun alias? halias => ?_
  have hrow := (chain_flatten hparts).append halias
  have hall := hrow.joined (by decide : isCode [] [] "\n\n" = true)
  rwa [List.append_nil, ← List.flatMap_def] at hall

end Unions

section Equations

variable {declared : Equation}

theorem params_weaves (script : Script) {bindings : List Binding}
    (h : ∀ binding ∈ bindings, binding.Proper) :
    IfOk (script.params bindings) (Weaves [] [] · []) := by
  have heach : ∀ binding ∈ bindings,
      IfOk (do let ascription ← script.ascription binding.type; return binding.name ++ ascription)
        (Weaves [] [] · []) := by
    intro binding hbinding
    refine (script.ascription_weaves (h binding hbinding).type).map fun text htext => ?_
    exact (weaves_name (h binding hbinding).name).part htext
  exact (ifOk_mapM_all heach).map fun texts htexts => weaves_separated htexts ", " (by decide)

theorem header_weaves (script : Script) (h : declared.Proper) :
    IfOk (script.header declared) (Weaves [] ['\x7d'] · []) := by
  refine (script.typeParams_weaves h.parameters_plain).bind fun generics hgenerics => ?_
  refine (script.params_weaves h.params).bind fun params hparams => ?_
  refine (script.ascription_weaves h.result).map fun result hresult => ?_
  exact weaves_functionHead h.name hgenerics hparams hresult

theorem function_weaves (script : Script) (h : declared.Proper) :
    IfOk ((Dialect.styled (.script script)).declPlan (.function declared))
      (Plan.Weaves · declared.body.strings) := by
  refine (script.header_weaves h).map fun header hheader => ?_
  intro count inline below _ hbelow
  rcases hbelow with _ | ⟨hbody, ⟨⟩⟩
  exact ifOk_ok (((((hheader.code ['\x7d'] (by decide)).part hbody).code ['\x7d']
    (by decide)).plain (indentText_weaves count)).code [] (by decide))

theorem const_weaves (script : Script) (h : declared.Proper) :
    IfOk ((Dialect.styled (.script script)).declPlan (.const declared))
      (Plan.Weaves · declared.body.strings) := by
  refine ifOk_ok fun count inline below hinline _ => ?_
  rcases hinline with _ | ⟨hbody, ⟨⟩⟩
  refine (script.ascription_weaves h.result).map fun ascription hascription => ?_
  have hname : Weaves [] [] ("const " ++ declared.name ++ ascription) [] :=
    ((weaves_code [] (by decide)).part (weaves_name h.name)).part hascription
  exact ((hname.code [] (by decide)).part hbody).code [] (by decide)

end Equations

end Script

/-! ## Declarations of the surface dialects -/

namespace Surface

variable (surface : Surface)

theorem typeMark_isCode : isCode [] [] surface.typeMark = true := by
  cases surface <;> decide

theorem tagText_weaves {tag : Tag} (h : tag.Proper) : Weaves [] [] (surface.tagText tag) [] := by
  have hfields : ∀ text ∈ tag.fields.map fun field =>
      field.name ++ surface.typeMark ++ surface.typeText false field.type,
      Weaves [] [] text [] := by
    rw [List.forall_mem_map]
    intro field hfield
    exact ((weaves_name (h.fields field hfield).name).code [] surface.typeMark_isCode).part
      (surface.typeText_weaves (h.fields field hfield).type)
  unfold tagText
  split
  · exact weaves_name h.name
  · exact (((weaves_name h.name).code ['\x7d'] (by decide)).part
      (weaves_separated hfields ", " (by decide))).code [] (by decide)

theorem unionType_weaves {declared : Union} (h : declared.Proper) :
    Weaves [] [] (surface.unionType declared) [] := by
  obtain ⟨names, hparams, hnames⟩ := h.params
  refine surface.named_weaves h.name ?_ false
  rw [hparams, List.forall_mem_map]
  exact fun name hname => surface.typeName_weaves (hnames name hname)

theorem union_weaves {declared : Union} (h : declared.Proper) :
    IfOk (surface.union declared)
      (Weaves [] [] · ((Dialect.styled (.surface surface)).literals (.union declared))) := by
  have hnone : (Dialect.styled (.surface surface)).literals (.union declared) = [] :=
    List.flatMap_eq_nil_iff.mpr fun _ _ => rfl
  rw [hnone]
  have htags := h.tags
  unfold union
  split
  · exact ifOk_error _
  · next first rest heq =>
    rw [heq, List.forall_mem_cons] at htags
    have hfirst := surface.tagText_weaves htags.1
    have htype := surface.unionType_weaves h
    have hhead : IfOk (surface.unionHead declared first) fun lines =>
        ∀ line ∈ lines, Weaves [] [] line [] := by
      cases surface with
      | derw =>
        refine ifOk_ok (List.forall_mem_cons.mpr ⟨?_, List.forall_mem_singleton.mpr ?_⟩)
        · exact htype.around [] (by decide) (by decide)
        · exact (weaves_code [] (by decide)).part hfirst
      | elm =>
        refine ifOk_ok (List.forall_mem_cons.mpr ⟨?_, List.forall_mem_singleton.mpr ?_⟩)
        · exact (weaves_code [] (by decide)).part htype
        · exact ((weaves_code [] (by decide)).code [] (by decide)).part hfirst
      | bare => exact ifOk_error _
    refine hhead.map fun lines hlines => weaves_separated ?_ "\n" (by decide)
    rw [List.forall_mem_append, List.forall_mem_map]
    refine ⟨hlines, fun tag htag => ?_⟩
    exact ((weaves_code [] (by decide)).code [] (by decide)).part
      (surface.tagText_weaves (htags.2 tag htag))

theorem signatureLine_weaves {name : String} (hname : isPlainName name) {types : List Ty}
    (h : ∀ ty ∈ types, ty.Proper false) :
    Weaves [] [] (surface.signatureLine name types) [] := by
  have htypes := surface.typeTexts_weaves fun ty hty => surface.typeText_weaves (h ty hty)
  exact ((weaves_name hname).code [] surface.typeMark_isCode).part
    (weaves_separated htypes " -> " (by decide))

/-- A signature line, an equation line and the body below it. -/
theorem equationPlan_weaves {signature head : String} (hsignature : Weaves [] [] signature [])
    (hhead : Weaves [] [] head []) (body : Expr) :
    (Dialect.equationPlan signature head body).Weaves body.strings := by
  intro count inline below _ hbelow
  rcases hbelow with _ | ⟨htext, ⟨⟩⟩
  exact ifOk_ok ((((hsignature.code [] (by decide)).part hhead).code [] (by decide)).part htext)

theorem function_weaves {declared : Equation} (h : declared.Proper) :
    IfOk ((Dialect.styled (.surface surface)).declPlan (.function declared))
      (Plan.Weaves · declared.body.strings) := by
  have hnames := Equation.names_plain h
  rw [List.forall_mem_cons] at hnames
  have hhead : Weaves [] [] (declared.name ++ " " ++
      " ".intercalate (declared.params.map Binding.name) ++ " =") [] :=
    (((weaves_name h.name).code [] (by decide)).part
      (weaves_names hnames.2 " " (by decide))).code [] (by decide)
  exact ifOk_ok (equationPlan_weaves
    (surface.signatureLine_weaves h.name (Equation.signature_proper h)) hhead declared.body)

theorem const_weaves {declared : Equation} (h : declared.Proper) :
    IfOk ((Dialect.styled (.surface surface)).declPlan (.const declared))
      (Plan.Weaves · declared.body.strings) :=
  ifOk_ok (equationPlan_weaves
    (surface.signatureLine_weaves h.name (Equation.constTypes_proper h.result).2)
    ((weaves_name h.name).code [] (by decide)) declared.body)

end Surface

/-! ## Programs -/

namespace Dialect

variable {style : Style}

theorem equation_weaves {declared : Equation} (h : declared.Proper) :
    IfOk ((Dialect.styled style).declPlan (Grammar.declaration declared))
      (Plan.Weaves · declared.body.strings) := by
  unfold Grammar.declaration
  cases style with
  | script script =>
    split
    · exact script.const_weaves h
    · exact script.function_weaves h
  | surface surface =>
    split
    · exact surface.const_weaves h
    · exact surface.function_weaves h

/-- The literals in the text of a declaration. -/
theorem decl_weaves {decl : Decl} (h : decl.Proper) :
    ((Dialect.styled style).decl decl).Ensures
      (Weaves [] [] · ((Dialect.styled style).literals decl)) := by
  cases h with
  | union hunion =>
    have hlift : ∀ {step : Except RenderError String} {P : String → Prop}, IfOk step P →
        (liftM step : Render String).Ensures P := by
      intro step P h count
      rw [outcome_lift]
      exact h.stopAt count
    cases style with
    | script script => exact hlift (script.union_weaves hunion)
    | surface surface => exact hlift (surface.union_weaves hunion)
  | @equation equation hequation =>
    have hbody : (Grammar.declaration equation).children = [equation.body] ∧
        (Dialect.styled style).literals (Grammar.declaration equation) = equation.body.strings := by
      unfold Grammar.declaration
      split <;> exact ⟨rfl, rfl⟩
    rw [hbody.2, decl_run]
    refine run_weaves fun plan hplan => ⟨equation_weaves hequation plan hplan, ?_⟩
    rw [declPlan_parts _ plan hplan, hbody.1, List.forall_mem_singleton]
    exact render_weaves hequation.body

theorem emit_weaves {body : List Decl} (h : ∀ decl ∈ body, decl.Proper) :
    ((Dialect.styled style).emit body).Ensures
      (Weaves [] [] · (body.flatMap (Dialect.styled style).literals)) := by
  intro count
  rw [outcome_emit, List.flatMap_def]
  refine (ifOk_mapM fun decl hdecl => decl_weaves (h decl hdecl) 0).map fun texts htexts => ?_
  exact weaves_intercalate htexts (by decide)

end Dialect

/-- Every text compiles to every target, and what comes out can be cut into literals and code. Each
literal closes on its line. Their bodies are the strings of the program, declaration by declaration
and from left to right, with the names of tags where the target writes them. All brackets of the
code are matched and nested. -/
theorem generate_literals (source : String) (target : Target) :
    ∃ text code, generate target.name (Program.ofText source).body = .ok text ∧
      cutCode text.toList =
        some ((Program.ofText source).body.flatMap target.dialect.literals, code) ∧
      isNested code = true := by
  obtain ⟨style, hdialect, hstyle⟩ := target.dialect_decided
  -- that a text comes out is known of well-formed declarations; what is in it, of proper ones
  obtain ⟨emitted, hemit⟩ := Dialect.emit_ok hstyle (Program.body_wellFormed source) 0
  have hweaves := (Dialect.emit_weaves (Program.body_proper source) 0 _ (outcome_of_ok hemit)).code
    [] (by decide : isCode [] [] "\n" = true)
  obtain ⟨code, hcut, hnested⟩ := hweaves.cutCode_eq
  refine ⟨emitted ++ "\n", code, ?_, ?_, hnested⟩
  · rw [generate, target.ofName?_name]
    dsimp only
    rw [Target.generate, hdialect, hemit]
  · rw [hdialect]
    exact hcut

end Polyglot
