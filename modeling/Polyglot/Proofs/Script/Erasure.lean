import Polyglot.Proofs.Program.Totality
import Polyglot.Proofs.Script.Twins

/-!
# Javascript is typescript without the types

The two scripts write a program with the same code. Typescript has more to say at certain places,
and `Erasable` lists them: the types of parameters, results and constants, the parameters of types
behind the name of a function, and the paragraphs that name types. A paragraph goes with the blank
line that separates it from its neighbour.

Results:
1. `header_twins`, `factory_twins`: the first line of a function and the function of a tag.
2. `union_twins`: a union, where whole paragraphs are missing.
3. `generate_erased`: a program, and expressions in which there are no types at all.
-/

namespace Polyglot

open Render

/-! ## What may be erased -/

/-- The parameters of all lambdas in a declaration. -/
def Decl.lambdaParams : Decl → List String
  | .function equation | .const equation => equation.body.lambdaParams
  | .union _ | .unknown _ => []

/-- The type of a record, from the texts of its fields. -/
def recordType (fields : List String) : String :=
  if fields.isEmpty then "\x7b\x7d" else "\x7b " ++ ", ".intercalate fields ++ " \x7d"

/-- The list of type parameters behind a name. -/
def typeParamList (names : List String) : String :=
  "<" ++ ", ".intercalate names ++ ">"

/-- What the declarations `body` may have for types only, right behind the text `anchor`. -/
inductive Annotates (body : List Decl) : (anchor piece : String) → Prop
  | param {text : String} {equation : Equation} {binding : Binding} :
      .function equation ∈ body → binding ∈ equation.params →
      Script.typeText binding.type = .ok text → Annotates body binding.name (": " ++ text)
  | result {text : String} {equation : Equation} : .function equation ∈ body →
      Script.typeText equation.result = .ok text → Annotates body ")" (": " ++ text)
  | const {text : String} {equation : Equation} : .const equation ∈ body →
      Script.typeText equation.result = .ok text →
      Annotates body ("const " ++ equation.name) (": " ++ text)
  /-- Nothing is known about the parameters of a lambda. -/
  | lambdaParam {name : String} {decl : Decl} : decl ∈ body → name ∈ decl.lambdaParams →
      Annotates body name ": any"
  | factoryParam {union : Union} {tag : Tag} {fields : List String} :
      .union union ∈ body → tag ∈ union.tags → Script.fieldTypes tag = .ok fields →
      Annotates body "(args" (": " ++ recordType fields)
  | factoryResult {union : Union} {tag : Tag} {text : String} : .union union ∈ body →
      tag ∈ union.tags → Script.tagType union tag = .ok text → Annotates body ")" (": " ++ text)
  | functionTypeParams {equation : Equation} : .function equation ∈ body →
      Ty.parameters equation.signature ≠ [] →
      Annotates body ("function " ++ equation.name)
        (typeParamList (Ty.parameters equation.signature))
  | factoryTypeParams {union : Union} {tag : Tag} {names : List String} : .union union ∈ body →
      tag ∈ union.tags → union.tagParams tag = .ok names → names ≠ [] →
      Annotates body ("function " ++ tag.name) (typeParamList names)

/-- The license of what stands inside a line: the text before it ends with its anchor. -/
def annotations (body : List Decl) : License :=
  fun before piece _ => ∃ front anchor, before = front ++ anchor ∧ Annotates body anchor piece

/-- What the declarations `body` may have for types only, by the text before and behind it. -/
inductive Erasable (body : List Decl) : (before piece after : String) → Prop
  | inline {before piece after : String} : annotations body before piece after →
      Erasable body before piece after
  /-- The type of a tag, a paragraph that starts the text or follows a blank line. -/
  | tagAlias {before after text : String} {union : Union} {tag : Tag} :
      .union union ∈ body → tag ∈ union.tags →
      Script.tagAlias .typescript union tag = .ok (some text) →
      (before = "" ∨ ∃ front, before = front ++ "\n\n") →
      Erasable body before (text ++ "\n\n") after
  /-- The type of a union, a paragraph that ends the text or is followed by a new line. -/
  | unionAlias {before after text : String} {union : Union} :
      .union union ∈ body → Script.unionAlias .typescript union = .ok (some text) →
      (after = "" ∨ ∃ back, after = "\n" ++ back) →
      Erasable body before ("\n\n" ++ text) after

section Licenses

variable {body : List Decl}

theorem Annotates.behind {anchor piece : String} (h : Annotates body anchor piece)
    (front after : String) : annotations body (front ++ anchor) piece after :=
  ⟨front, anchor, rfl, h⟩

theorem Annotates.here {anchor piece : String} (h : Annotates body anchor piece) (after : String) :
    annotations body anchor piece after :=
  ⟨"", anchor, String.empty_append.symm, h⟩

theorem annotations_local : (annotations body).Local := by
  intro sep before piece after h
  refine ⟨fun more => ?_, fun _ => h⟩
  obtain ⟨front, anchor, rfl, hpiece⟩ := h
  rw [← String.append_assoc]
  exact hpiece.behind _ after

/-- Whole paragraphs may be erased wherever blank lines separate them. -/
theorem erasable_stable : License.Stable (Erasable body) "\n\n" := by
  intro before piece after h
  cases h with
  | inline h =>
    obtain ⟨hfront, hback⟩ := annotations_local "\n\n" before piece after h
    exact ⟨fun front => .inline (hfront front), fun back => .inline (hback back)⟩
  | tagAlias hmem htag htext hbefore =>
    refine ⟨fun front => .tagAlias hmem htag htext (.inr ?_), fun _ =>
      .tagAlias hmem htag htext hbefore⟩
    rcases hbefore with rfl | ⟨more, rfl⟩
    · exact ⟨front, String.append_empty⟩
    · exact ⟨front ++ "\n\n" ++ more, (String.append_assoc ..).symm⟩
  | unionAlias hmem htext hafter =>
    refine ⟨fun _ => .unionAlias hmem htext hafter, fun back =>
      .unionAlias hmem htext (.inr ?_)⟩
    rcases hafter with rfl | ⟨more, rfl⟩
    · exact ⟨"\n" ++ back, rfl⟩
    · exact ⟨more ++ "\n\n" ++ back, by simp only [String.append_assoc]⟩

/-- The text of a program ends with a new line. -/
theorem Erasable.newline {before piece after : String} (h : Erasable body before piece after) :
    Erasable body before piece (after ++ "\n") := by
  cases h with
  | inline h => exact .inline h
  | tagAlias hmem htag htext hbefore => exact .tagAlias hmem htag htext hbefore
  | unionAlias hmem htext hafter =>
    refine .unionAlias hmem htext (.inr ?_)
    rcases hafter with rfl | ⟨back, rfl⟩
    · exact ⟨"", rfl⟩
    · exact ⟨back ++ "\n", String.append_assoc ..⟩

/-- Javascript writes nothing where typescript has something for types. -/
theorem Twins.annotated {text codeText piece : String} (h : Twins (annotations body) text codeText)
    (hpiece : annotations body text piece "") :
    Twins (annotations body) (text ++ piece) (codeText ++ "") := by
  rw [String.append_empty]
  exact h.snoc hpiece fun _ _ _ hother => hother

theorem Twins.erasable {text codeText : String} (h : Twins (annotations body) text codeText) :
    Twins (Erasable body) text codeText :=
  h.imp fun _ _ _ hpiece => .inline hpiece

/-- There is no list of type parameters if there are none. -/
theorem Twins.angled {text codeText : String} {names : List String}
    (h : Twins (annotations body) text codeText)
    (hnames : names ≠ [] → annotations body text (typeParamList names) "") :
    Twins (annotations body) (text ++ Script.angled names) (codeText ++ "") := by
  unfold Script.angled
  split
  · exact h.code annotations_local ""
  · next hne => exact h.annotated (hnames fun hnil => hne (by rw [hnil]; rfl))

end Licenses

/-! ## Functions and constants -/

section Equations

variable {body : List Decl} {equation : Equation}

theorem result_text (h : equation.wellFormed = true) :
    ∃ text, Script.typeText equation.result = .ok text := by
  simp only [Equation.wellFormed, Bool.and_eq_true] at h
  exact Script.typeText_ok equation.result h.2.1

theorem params_twins (hmem : .function equation ∈ body) (h : equation.wellFormed = true) :
    ∃ text codeText, Script.params .typescript equation.params = .ok text ∧
      Script.params .javascript equation.params = .ok codeText ∧
      Twins (annotations body) text codeText := by
  rw [Equation.wellFormed, Bool.and_eq_true, List.all_eq_true] at h
  have hparams : ∃ texts codeTexts,
      equation.params.mapM (fun binding => do
        let ascription ← Script.ascription .typescript binding.type
        return binding.name ++ ascription) = .ok texts ∧
      equation.params.mapM (fun binding => do
        let ascription ← Script.ascription .javascript binding.type
        return binding.name ++ ascription) = .ok codeTexts ∧
      List.Forall₂ (Twins (annotations body)) texts codeTexts := by
    refine exists_ok_mapM₂ fun binding hbinding => ?_
    obtain ⟨text, htext⟩ := Script.typeText_ok binding.type (h.1 binding hbinding)
    refine ⟨binding.name ++ (": " ++ text), binding.name ++ "", ?_, rfl, ?_⟩
    · rw [Script.ascription, htext]
      rfl
    · exact (twins_code binding.name).annotated ((Annotates.param hmem hbinding htext).here "")
  obtain ⟨texts, codeTexts, htexts, hcodeTexts, hall⟩ := hparams
  refine ⟨", ".intercalate texts, ", ".intercalate codeTexts, ?_, ?_,
    Twins.intercalate (annotations_local ", ") hall⟩
  · rw [Script.params, htexts]
    rfl
  · rw [Script.params, hcodeTexts]
    rfl

/-- The first line of a function. -/
theorem header_twins (hmem : .function equation ∈ body) (h : equation.wellFormed = true) :
    ∃ text codeText, Script.header .typescript equation = .ok text ∧
      Script.header .javascript equation = .ok codeText ∧
      Twins (annotations body) text codeText := by
  obtain ⟨params, params', hparams, hparams', htwins⟩ := params_twins hmem h
  obtain ⟨result, hresult⟩ := result_text h
  refine ⟨"function " ++ equation.name ++ Script.angled (Ty.parameters equation.signature) ++ "(" ++
    params ++ ")" ++ (": " ++ result) ++ " \x7b",
    "function " ++ equation.name ++ "" ++ "(" ++ params' ++ ")" ++ "" ++ " \x7b", ?_, ?_, ?_⟩
  · rw [Script.header, hparams, Script.ascription, hresult]
    rfl
  · rw [Script.header, hparams']
    rfl
  · have hname : Twins (annotations body)
        ("function " ++ equation.name ++ Script.angled (Ty.parameters equation.signature))
        ("function " ++ equation.name ++ "") :=
      (twins_code _).angled fun hne => (Annotates.functionTypeParams hmem hne).here ""
    have hlist := ((hname.code annotations_local "(").append annotations_local htwins).code
      annotations_local ")"
    have htyped := hlist.annotated ((Annotates.result hmem hresult).behind _ "")
    exact htyped.code annotations_local " \x7b"

theorem lambdaParam_annotates {decl : Decl} (hmem : decl ∈ body) :
    ∀ name ∈ decl.lambdaParams, annotations body name ": any" "" :=
  fun _ hname => (Annotates.lambdaParam hmem hname).here ""

/-- The plans of a function, which differ in its first line. -/
theorem function_coupled (hmem : .function equation ∈ body) (h : equation.wellFormed = true) :
    Coupled (Plan.Twins (annotations body)) (Dialect.typescript.declPlan (.function equation))
      (Dialect.javascript.declPlan (.function equation)) := by
  obtain ⟨header, header', hheader, hheader', htwins⟩ := header_twins hmem h
  rw [Dialect.declPlan_function hheader, Dialect.declPlan_function hheader']
  refine coupled_ok ⟨rfl, rfl, ?_⟩
  intro indent inline inline' below below' _ _ hbelow hlength
  obtain ⟨_, rfl⟩ := List.length_eq_one_iff.mp hlength
  rcases hbelow with _ | ⟨htext, ⟨⟩⟩
  have hlines := (htwins.code annotations_local "\n").append annotations_local htext
  exact coupled_ok (((hlines.code annotations_local "\n").code annotations_local indent).code
    annotations_local "\x7d")

theorem const_coupled (hmem : .const equation ∈ body) (h : equation.wellFormed = true) :
    Coupled (Plan.Twins (annotations body)) (Dialect.typescript.declPlan (.const equation))
      (Dialect.javascript.declPlan (.const equation)) := by
  obtain ⟨result, hresult⟩ := result_text h
  refine coupled_ok ⟨rfl, rfl, ?_⟩
  intro indent inline inline' below below' hin hlength _ _
  obtain ⟨_, rfl⟩ := List.length_eq_one_iff.mp hlength
  rcases hin with _ | ⟨htext, ⟨⟩⟩
  have hascription : Script.ascription .typescript equation.result = .ok (": " ++ result) := by
    rw [Script.ascription, hresult]
    rfl
  dsimp only
  rw [hascription]
  refine coupled_ok ?_
  have hname : Twins (annotations body) ("const " ++ equation.name ++ (": " ++ result))
      ("const " ++ equation.name ++ "") :=
    (twins_code _).annotated ((Annotates.const hmem hresult).here "")
  exact ((hname.code annotations_local " = ").append annotations_local htext).code
    annotations_local ";"

/-- The runs of two plans for a declaration. -/
theorem declPlan_coupled {decl : Decl} (hmem : decl ∈ body)
    (hplan : Coupled (Plan.Twins (annotations body)) (Dialect.typescript.declPlan decl)
      (Dialect.javascript.declPlan decl)) (count : Int) :
    Coupled (Twins (annotations body)) ((Dialect.typescript.decl decl).outcome count)
      ((Dialect.javascript.decl decl).outcome count) := by
  have hparams : ∀ part ∈ decl.children, part.lambdaParams = decl.lambdaParams := by
    cases decl with
    | function equation | const equation => exact List.forall_mem_singleton.mpr rfl
    | union _ | unknown _ => exact fun part hpart => absurd hpart List.not_mem_nil
  rw [Dialect.decl_run, Dialect.decl_run]
  refine run_coupled hplan (fun plan hfound part hpart => ?_) count
  rw [Dialect.declPlan_parts decl plan hfound] at hpart
  refine render_coupled annotations_local ?_
  rw [hparams part hpart]
  exact lambdaParam_annotates hmem

end Equations

/-! ## Unions -/

section Unions

variable {body : List Decl} {union : Union} {tag : Tag}

/-- The first line of the function that makes a value of a tag. -/
theorem factoryHead_twins (hmem : .union union ∈ body) (hnamed : union.Named)
    (htag : tag ∈ union.tags) {fields : List String} (hfields : Script.fieldTypes tag = .ok fields) :
    Twins (annotations body)
      ("function " ++ tag.name ++ Script.angled (union.boundIn tag) ++ "(" ++
        ("args" ++ (": " ++ recordType fields)) ++ ")" ++ (": " ++ Script.tagTypeText union tag) ++
        " \x7b")
      ("function " ++ tag.name ++ "" ++ "(" ++ "args" ++ ")" ++ "" ++ " \x7b") := by
  have hname : Twins (annotations body)
      ("function " ++ tag.name ++ Script.angled (union.boundIn tag))
      ("function " ++ tag.name ++ "") :=
    (twins_code _).angled fun hne =>
      (Annotates.factoryTypeParams hmem htag (Union.tagParams_eq_ok hnamed tag) hne).here ""
  have hargs (front : String) :
      annotations body (front ++ "(" ++ "args") (": " ++ recordType fields) "" := by
    rw [String.append_assoc]
    exact (Annotates.factoryParam hmem htag hfields).behind front ""
  have hparam := ((hname.code annotations_local "(").code annotations_local "args").annotated
    (hargs _)
  rw [String.append_assoc, String.append_empty] at hparam
  have hresult := (hparam.code annotations_local ")").annotated
    ((Annotates.factoryResult hmem htag (Script.tagType_eq_ok hnamed tag)).behind _ "")
  exact hresult.code annotations_local " \x7b"

/-- The lines of such a function behind the first. -/
def factoryRest (tag : Tag) : List String :=
  [indentStep ++ "return \x7b",
    indentStep ++ indentStep ++ "kind: \"" ++ tag.name ++ "\",",
    indentStep ++ indentStep ++ "...args,", indentStep ++ "\x7d;", "\x7d"]

theorem factory_eq {script : Script} {generics params result : String} (hnamed : union.Named)
    (hgenerics : script.typeParams (union.boundIn tag) = .ok generics)
    (hparams : script.factoryParams tag = .ok params)
    (hresult : script.factoryReturn union tag = .ok result) :
    script.factory union tag = .ok ("\n".intercalate
      (("function " ++ tag.name ++ generics ++ "(" ++ params ++ ")" ++ result ++ " \x7b") ::
        factoryRest tag)) := by
  rw [Script.factory, Script.tagParams_eq_ok hnamed]
  show (do let generics ← script.typeParams (union.boundIn tag); _) = _
  rw [hgenerics, hparams, hresult]
  rfl

theorem factory_twins (hmem : .union union ∈ body) (hnamed : union.Named)
    (htag : tag ∈ union.tags) (h : tag.wellFormed = true) :
    ∃ text codeText, Script.factory .typescript union tag = .ok text ∧
      Script.factory .javascript union tag = .ok codeText ∧
      Twins (annotations body) text codeText := by
  obtain ⟨fields, hfields⟩ := Script.fieldTypes_ok h
  have hparams : Script.factoryParams .typescript tag =
      .ok ("args" ++ (": " ++ recordType fields)) := by
    rw [Script.factoryParams, hfields, recordType]
    show Except.ok (if fields.isEmpty then _ else _) = _
    split
    · rfl
    · simp only [String.append_assoc]
      rfl
  have hrest : List.Forall₂ (Twins (annotations body)) (factoryRest tag) (factoryRest tag) :=
    List.forall₂_same.mpr fun line _ => twins_code line
  have hresult : Script.factoryReturn .typescript union tag =
      .ok (": " ++ Script.tagTypeText union tag) := by
    rw [Script.factoryReturn, Script.tagType_eq_ok hnamed]
    rfl
  refine ⟨_, _, factory_eq hnamed rfl hparams hresult, factory_eq hnamed rfl rfl rfl, ?_⟩
  exact Twins.intercalate (annotations_local "\n")
    (.cons (factoryHead_twins hmem hnamed htag hfields) hrest)

/-- Paragraphs of the two scripts that are twins with blank lines between them. -/
structure TwinParagraphs (body : List Decl) (texts codeTexts : List String) : Prop where
  ne_nil : texts ≠ []
  code_ne_nil : codeTexts ≠ []
  twins : Twins (Erasable body) ("\n\n".intercalate texts) ("\n\n".intercalate codeTexts)

theorem TwinParagraphs.append {texts texts' codeTexts codeTexts' : List String}
    (h : TwinParagraphs body texts codeTexts) (h' : TwinParagraphs body texts' codeTexts') :
    TwinParagraphs body (texts ++ texts') (codeTexts ++ codeTexts') := by
  refine ⟨List.append_ne_nil_of_left_ne_nil h.ne_nil _,
    List.append_ne_nil_of_left_ne_nil h.code_ne_nil _, ?_⟩
  rw [String.intercalate_append_of_ne_nil h.ne_nil h'.ne_nil,
    String.intercalate_append_of_ne_nil h.code_ne_nil h'.code_ne_nil]
  exact h.twins.join erasable_stable h'.twins

theorem TwinParagraphs.flatten {parts codeParts : List (List String)} (hne : parts ≠ [])
    (h : List.Forall₂ (TwinParagraphs body) parts codeParts) :
    TwinParagraphs body parts.flatten codeParts.flatten := by
  induction h with
  | nil => exact absurd rfl hne
  | cons hfirst hrest ih =>
    cases hrest with
    | nil => simpa using hfirst
    | cons _ _ => exact hfirst.append (ih (List.cons_ne_nil _ _))

/-- The type of a tag is a paragraph of its own, before the function. -/
theorem tagParts_twins (hmem : .union union ∈ body) (hnamed : union.Named)
    (htag : tag ∈ union.tags) (h : tag.wellFormed = true) :
    ∃ texts codeTexts, Script.tagParts .typescript union tag = .ok texts ∧
      Script.tagParts .javascript union tag = .ok codeTexts ∧
      TwinParagraphs body texts codeTexts := by
  obtain ⟨text, codeText, htext, hcodeText, htwins⟩ := factory_twins hmem hnamed htag h
  obtain ⟨fields, hfields⟩ := Script.fieldTypes_ok h
  obtain ⟨record, hrecord⟩ :
      ∃ record, Script.tagAlias .typescript union tag = .ok (some record) := by
    rw [Script.tagAlias, Script.tagType_eq_ok hnamed, hfields]
    exact ⟨_, rfl⟩
  refine ⟨[record, text], [codeText], ?_, ?_, List.cons_ne_nil _ _, List.cons_ne_nil _ _, ?_⟩
  · rw [Script.tagParts, hrecord, htext]
    rfl
  · rw [Script.tagParts, hcodeText]
    rfl
  · rw [String.intercalate_cons_cons, String.intercalate_singleton, String.intercalate_singleton]
    refine htwins.erasable.cons (fun after => .tagAlias hmem htag hrecord (.inl rfl)) ?_
    exact fun before piece after hpiece => (erasable_stable before piece after hpiece).1 record

/-- In typescript the type of a union is its last paragraph. -/
theorem union_twins (hmem : .union union ∈ body) (h : union.wellFormed = true) :
    ∃ text codeText, Script.union .typescript union = .ok text ∧
      Script.union .javascript union = .ok codeText ∧ Twins (Erasable body) text codeText := by
  have hnamed := union.named_of_wellFormed h
  simp only [Union.wellFormed, Bool.and_eq_true, Bool.not_eq_true', List.isEmpty_eq_false_iff] at h
  obtain ⟨_, hparams, hne, htags⟩ := h
  obtain ⟨parts, codeParts, hparts, hcodeParts, hall⟩ :=
    exists_ok_mapM₂ fun tag htag =>
      tagParts_twins hmem hnamed htag (List.all_eq_true.mp htags tag htag)
  obtain ⟨name, hname⟩ := Script.typeText_ok (.named union.name union.params) hparams
  obtain ⟨whole, hwhole⟩ : ∃ whole, Script.unionAlias .typescript union = .ok (some whole) := by
    rw [Script.unionAlias, mapM_eq_ok fun tag _ => Script.tagType_eq_ok hnamed tag, hname]
    exact ⟨_, rfl⟩
  have hpartsNe : parts ≠ [] := by
    rw [← List.length_pos_iff, length_of_mapM hparts]
    exact List.length_pos_iff.mpr hne
  have hparagraphs := TwinParagraphs.flatten hpartsNe hall
  refine ⟨"\n\n".intercalate (parts.flatten ++ [whole]),
    "\n\n".intercalate (codeParts.flatten ++ []), ?_, ?_, ?_⟩
  · rw [Script.union, hparts, hwhole]
    rfl
  · rw [Script.union, hcodeParts]
    rfl
  · rw [List.append_nil,
      String.intercalate_append_of_ne_nil hparagraphs.ne_nil (List.cons_ne_nil _ _),
      String.intercalate_singleton, String.append_assoc]
    refine hparagraphs.twins.snoc (.unionAlias hmem hwhole (.inl rfl)) ?_
    intro before piece after h
    rw [← String.append_assoc]
    exact (erasable_stable before piece after h).2 whole

end Unions

/-! ## Programs -/

theorem decl_coupled {body : List Decl} {decl : Decl} (hmem : decl ∈ body)
    (h : decl.wellFormed = true) (count : Int) :
    Coupled (Twins (Erasable body)) ((Dialect.typescript.decl decl).outcome count)
      ((Dialect.javascript.decl decl).outcome count) := by
  cases decl with
  | union declared =>
    have hlift : Coupled (Twins (Erasable body))
        ((liftM (Script.union .typescript declared) : Render String).outcome count)
        ((liftM (Script.union .javascript declared) : Render String).outcome count) := by
      rw [outcome_lift, outcome_lift]
      exact Coupled.stopAt (.inl (union_twins hmem h)) count
    exact hlift
  | function equation =>
    rw [Decl.wellFormed, Bool.and_eq_true] at h
    exact (declPlan_coupled hmem (function_coupled hmem h.2) count).imp
      fun _ _ htwins => htwins.erasable
  | const equation =>
    rw [Decl.wellFormed, Bool.and_eq_true] at h
    exact (declPlan_coupled hmem (const_coupled hmem h.2) count).imp
      fun _ _ htwins => htwins.erasable
  | unknown node => cases h

theorem emit_coupled {body : List Decl} (h : ∀ decl ∈ body, decl.wellFormed = true) (count : Int) :
    Coupled (Twins (Erasable body)) ((Dialect.typescript.emit body).outcome count)
      ((Dialect.javascript.emit body).outcome count) := by
  rw [Dialect.outcome_emit, Dialect.outcome_emit]
  refine (coupled_mapM fun decl hdecl => decl_coupled hdecl (h decl hdecl) 0).map ?_
  exact fun texts codeTexts hall => Twins.intercalate erasable_stable hall.1

theorem Twins.newline {body : List Decl} {text codeText : String}
    (h : Twins (Erasable body) text codeText) :
    Twins (Erasable body) (text ++ "\n") (codeText ++ "\n") := by
  obtain ⟨fragments, rfl, rfl, hlicensed⟩ := h
  refine ⟨fragments ++ [.code "\n"], written_append .., erased_append .., ?_⟩
  exact hlicensed.append trivial fun before piece after hpiece => hpiece.newline

theorem generate_twins {body : List Decl} (h : ∀ decl ∈ body, decl.wellFormed = true) :
    ∃ text codeText, generate "ts" body = .ok text ∧ generate "js" body = .ok codeText ∧
      Twins (Erasable body) text codeText := by
  have hdecided : ∀ script, script ≠ .bare → (Style.script script).decided = true :=
    fun script hscript => decide_eq_true hscript
  obtain ⟨text, htext⟩ := Dialect.emit_ok (hdecided .typescript (by decide)) h 0
  obtain ⟨codeText, hcodeText⟩ := Dialect.emit_ok (hdecided .javascript (by decide)) h 0
  have hts : generate Target.ts.name body = .ok (text ++ "\n") := generate_of_emit htext
  have hjs : generate Target.js.name body = .ok (codeText ++ "\n") := generate_of_emit hcodeText
  refine ⟨text ++ "\n", codeText ++ "\n", hts, hjs, Twins.newline ?_⟩
  have hcoupled := emit_coupled h 0
  rw [outcome_of_ok htext, outcome_of_ok hcodeText] at hcoupled
  rcases hcoupled with ⟨_, _, ⟨⟩, ⟨⟩, htwins⟩ | ⟨_, ⟨⟩, _⟩
  exact htwins

/-- The text of a program in typescript is cut into fragments so that the code among them is the
text in javascript, and every other fragment may be erased where it stands. Expressions in which no
lambda has a parameter are the same in both, wherever they stand and at any indentation. -/
theorem generate_erased (text : String) :
    (∃ fragments,
      generate "ts" (Program.ofText text).body = .ok (written fragments) ∧
      generate "js" (Program.ofText text).body = .ok (erased fragments) ∧
      Licensed (Erasable (Program.ofText text).body) "" fragments) ∧
    ∀ e : Expr, e.lambdaParams = [] → ∀ (slot : Slot) (count : Int),
      Target.ts.dialect.render slot e count = Target.js.dialect.render slot e count := by
  refine ⟨?_, fun e he => render_eq he⟩
  obtain ⟨_, _, hts, hjs, fragments, rfl, rfl, hlicensed⟩ :=
    generate_twins (Program.body_wellFormed text)
  exact ⟨fragments, hts, hjs, hlicensed⟩

/-- What is erased from a function with a lambda in it, and a conditional from which nothing is. -/
theorem generate_erased_lambda :
    (∃ fragments,
      generate "ts" (Program.ofText "f x = \\y -> y").body = .ok (written fragments) ∧
      written fragments = "function f(x: any): any \x7b\n    return function(y: any) \x7b\n" ++
        "        return y;\n    \x7d;\n\x7d\n" ∧
      generate "js" (Program.ofText "f x = \\y -> y").body = .ok (erased fragments) ∧
      erased fragments = "function f(x) \x7b\n    return function(y) \x7b\n" ++
        "        return y;\n    \x7d;\n\x7d\n" ∧
      Licensed (Erasable (Program.ofText "f x = \\y -> y").body) "" fragments) ∧
    Expr.lambdaParams (.cond (.value "x") (.list []) (.str "y")) = [] ∧
    (∀ (slot : Slot) (count : Int),
      Target.ts.dialect.render slot (.cond (.value "x") (.list []) (.str "y")) count =
        Target.js.dialect.render slot (.cond (.value "x") (.list []) (.str "y")) count) ∧
    Target.ts.dialect.expr (.cond (.value "x") (.list []) (.str "y")) 0 =
      .ok "(x ? [ ] : \"y\")" 0 := by
  obtain ⟨⟨fragments, hts, hjs, hlicensed⟩, hsame⟩ := generate_erased "f x = \\y -> y"
  have hknown : generate "ts" (Program.ofText "f x = \\y -> y").body =
      .ok ("function f(x: any): any \x7b\n    return function(y: any) \x7b\n" ++
        "        return y;\n    \x7d;\n\x7d\n") := by decide +kernel
  have hknown' : generate "js" (Program.ofText "f x = \\y -> y").body =
      .ok ("function f(x) \x7b\n    return function(y) \x7b\n" ++
        "        return y;\n    \x7d;\n\x7d\n") := by decide +kernel
  refine ⟨⟨fragments, hts, ?_, hjs, ?_, hlicensed⟩, rfl, hsame _ rfl, by cbv⟩
  · exact Except.ok.inj (hts.symm.trans hknown)
  · exact Except.ok.inj (hjs.symm.trans hknown')

end Polyglot
