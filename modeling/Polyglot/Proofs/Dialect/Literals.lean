import Polyglot.Proofs.Decl.Proper
import Polyglot.Proofs.Text.Literals
import Polyglot.Proofs.Token.Places

/-!
# Literals of types and expressions

Every dialect copies the strings of an expression into its text as they are, between quotes. All
other text is names, numerals and fixed code, and each printer closes the brackets that it opens.

Results:
1. `Script.typeText_weaves`, `Surface.typeText_weaves`: the text of a type has no literal.
2. `plan_weaves`: what the plan of an expression adds to the literals of its parts.
3. `render_weaves`: the literals in the text of an expression are its strings, from left to right.
-/

namespace Polyglot

open Text

/-! ## The strings of a program -/

namespace Expr

mutual

/-- The bodies of the strings in an expression, from left to right. -/
def strings : Expr → List String
  | .value _ | .unknown _ => []
  | .str body => [body]
  | .list items => stringsAll items
  | .record _ fields => stringsFields fields
  | .field _ content => strings content
  | .cond test yes no => strings test ++ strings yes ++ strings no
  | .lambda _ body => strings body
  | .construct _ _ fields => stringsFields fields
  | .call _ args => stringsAll args
  | .binary _ left right => strings left ++ strings right

def stringsAll : List Expr → List String
  | [] => []
  | expr :: rest => strings expr ++ stringsAll rest

def stringsFields : List (String × Expr) → List String
  | [] => []
  | (_, content) :: rest => strings content ++ stringsFields rest

end

theorem stringsAll_eq_flatten (items : List Expr) :
    stringsAll items = (items.map strings).flatten := by
  induction items with
  | nil => rfl
  | cons e items ih => rw [stringsAll, ih, List.map_cons, List.flatten_cons]

theorem stringsFields_eq_flatten (fields : List (String × Expr)) :
    stringsFields fields = ((fields.map Prod.snd).map strings).flatten := by
  induction fields with
  | nil => rfl
  | cons field fields ih =>
    rw [stringsFields, ih, List.map_cons, List.map_cons, List.flatten_cons]

theorem Proper.of_mem_children {e part : Expr} (h : e.Proper) (hpart : part ∈ e.children) :
    part.Proper := by
  cases h with
  | name _ _ | number _ | negative _ | str _ => cases hpart
  | list hitems => exact hitems part hpart
  | record _ hfields | construct _ _ _ hfields => exact List.forall_mem_map.mpr hfields part hpart
  | cond htest hyes hno =>
    have hall := List.forall_mem_cons.mpr ⟨htest, List.forall_mem_cons.mpr
      ⟨hyes, List.forall_mem_singleton.mpr hno⟩⟩
    exact hall part hpart
  | lambda _ _ hbody => exact List.forall_mem_singleton.mpr hbody part hpart
  | call _ _ _ hargs => exact hargs part hpart
  | binary hleft hright =>
    exact List.forall_mem_cons.mpr ⟨hleft, List.forall_mem_singleton.mpr hright⟩ part hpart

end Expr

/-- What a rendering gives if it succeeds, whatever the indent counter is. -/
def Render.Ensures {α : Type} (part : Render α) (P : α → Prop) : Prop :=
  ∀ count, IfOk (part.outcome count) P

theorem IfOk.stopAt {α : Type} {step : Except RenderError α} {P : α → Prop} (h : IfOk step P)
    (count : Int) : IfOk (Render.stopAt count step) P := by
  cases step with
  | error error => exact ifOk_error _
  | ok value => exact ifOk_ok (h value rfl)

theorem indentText_weaves (count : Int) : Weaves [] [] (indentText count) [] := by
  refine weaves_inert fun c hc => ?_
  rw [indentText_toList] at hc
  rw [List.eq_of_mem_replicate hc]
  decide

open Render

/-! ## Types -/

theorem weaves_parenthesized {text : String} {bodies : List String}
    (h : Weaves [] [] text bodies) (condition : Bool) :
    Weaves [] [] (parenthesized condition text) bodies := by
  unfold parenthesized
  split
  · exact h.around [')'] (by decide) (by decide)
  · exact h

/-- Texts without literals, with a separator between each two of them. -/
theorem weaves_separated {texts : List String} (h : ∀ text ∈ texts, Weaves [] [] text [])
    (separator : String) (hseparator : isCode [] [] separator = true) :
    Weaves [] [] (separator.intercalate texts) [] :=
  (chain_of_forall h []).joined hseparator

theorem weaves_names {names : List String} (h : ∀ name ∈ names, isPlainName name)
    (separator : String) (hseparator : isCode [] [] separator = true) :
    Weaves [] [] (separator.intercalate names) [] :=
  weaves_separated (fun name hname => weaves_name (h name hname)) separator hseparator

namespace Script

theorem numbered_weaves {texts : List String} (h : ∀ text ∈ texts, Weaves [] [] text [])
    (count : Nat) : ∀ text ∈ numbered count texts, Weaves [] [] text [] := by
  induction texts generalizing count with
  | nil => exact fun text htext => absurd htext List.not_mem_nil
  | cons text texts ih =>
    rw [List.forall_mem_cons] at h
    refine List.forall_mem_cons.mpr ⟨?_, ih h.2 (count + 1)⟩
    exact (((weaves_code [] (by decide)).part (weaves_toString count)).code [] (by decide)).part h.1

theorem functionType_weaves {texts : List String} (h : ∀ text ∈ texts, Weaves [] [] text []) :
    IfOk (functionType texts) (Weaves [] [] · []) := by
  unfold functionType
  split
  · exact ifOk_error _
  · next result hresult =>
    have hparams := numbered_weaves (fun text htext => h text (List.mem_of_mem_dropLast htext)) 0
    have hlist := weaves_separated hparams ", " (by decide)
    refine ifOk_ok ?_
    exact (((weaves_code [')'] (by decide)).part hlist).code [] (by decide)).part
      (h result (List.mem_of_getLast? hresult))

theorem appliedType_weaves {name : String} (hname : isPlainName name) (args : List Ty)
    {texts : List String} (h : ∀ text ∈ texts, Weaves [] [] text []) :
    Weaves [] [] (appliedType name args texts) [] := by
  unfold appliedType
  split
  · exact weaves_name hname
  · next arg text =>
    have htext := h text List.mem_cons_self
    split
    · exact (weaves_parenthesized htext _).code [] (by decide)
    · exact (((weaves_name hname).code [] (by decide)).part htext).code [] (by decide)
  · have hlist := weaves_separated h ", " (by decide)
    exact (((weaves_name hname).code [] (by decide)).part hlist).code [] (by decide)

theorem typeTexts_all {types : List Ty} {P : String → Prop}
    (h : ∀ ty ∈ types, IfOk (typeText ty) P) :
    IfOk (typeTexts types) fun texts => ∀ text ∈ texts, P text := by
  induction types with
  | nil => exact ifOk_ok fun text htext => absurd htext List.not_mem_nil
  | cons ty types ih =>
    rw [List.forall_mem_cons] at h
    rw [typeTexts]
    exact h.1.bind fun text htext => (ih h.2).map fun texts htexts =>
      List.forall_mem_cons.mpr ⟨htext, htexts⟩

theorem named_weaves {name : String} (hname : isPlainName name) {args : List Ty}
    (h : ∀ arg ∈ args, IfOk (typeText arg) (Weaves [] [] · [])) :
    IfOk (typeText (.named name args)) (Weaves [] [] · []) := by
  rw [typeText]
  exact (typeTexts_all h).map fun texts htexts => appliedType_weaves hname args htexts

/-- The text of a type has no literal. -/
theorem typeText_weaves {nested : Bool} {ty : Ty} (h : ty.Proper nested) :
    IfOk (typeText ty) (Weaves [] [] · []) := by
  induction h with
  | var hname _ _ => exact ifOk_ok (weaves_name hname)
  | constant hname _ => exact ifOk_ok (weaves_name hname)
  | applied hname _ _ ih => exact named_weaves hname ih
  | func _ _ ih =>
    rw [typeText]
    exact (typeTexts_all ih).bind fun texts htexts => functionType_weaves htexts

theorem ascription_weaves (script : Script) {nested : Bool} {ty : Ty} (h : ty.Proper nested) :
    IfOk (script.ascription ty) (Weaves [] [] · []) := by
  cases script with
  | javascript => exact ifOk_ok weaves_empty
  | typescript =>
    exact (typeText_weaves h).map fun text htext => (weaves_code [] (by decide)).part htext
  | bare => exact ifOk_error _

theorem angled_weaves {names : List String} (h : ∀ name ∈ names, isPlainName name) :
    Weaves [] [] (angled names) [] := by
  unfold angled
  split
  · exact weaves_empty
  · have hlist := weaves_names h ", " (by decide)
    exact hlist.around [] (by decide) (by decide)

theorem typeParams_weaves (script : Script) {names : List String}
    (h : ∀ name ∈ names, isPlainName name) :
    IfOk (script.typeParams names) (Weaves [] [] · []) := by
  cases script with
  | javascript => exact ifOk_ok weaves_empty
  | typescript => exact ifOk_ok (angled_weaves h)
  | bare => exact ifOk_error _

end Script

namespace Surface

variable (surface : Surface)

theorem typeName_weaves {name : String} (h : isPlainName name) :
    Weaves [] [] (surface.typeName name) [] := by
  unfold typeName
  split
  · exact weaves_code [] (by decide)
  · exact weaves_code [] (by decide)
  · exact weaves_code [] (by decide)
  · exact weaves_code [] (by decide)
  · exact weaves_name h

theorem typeTexts_weaves {nested : Bool} {types : List Ty}
    (h : ∀ ty ∈ types, Weaves [] [] (surface.typeText nested ty) []) :
    ∀ text ∈ surface.typeTexts nested types, Weaves [] [] text [] := by
  induction types with
  | nil => exact fun text htext => absurd htext List.not_mem_nil
  | cons ty types ih =>
    rw [List.forall_mem_cons] at h
    rw [typeTexts]
    exact List.forall_mem_cons.mpr ⟨h.1, ih h.2⟩

theorem named_weaves {name : String} (hname : isPlainName name) {args : List Ty}
    (h : ∀ arg ∈ args, Weaves [] [] (surface.typeText true arg) []) (nested : Bool) :
    Weaves [] [] (surface.typeText nested (.named name args)) [] := by
  cases args with
  | nil => exact surface.typeName_weaves hname
  | cons arg args =>
    have hargs := weaves_separated (surface.typeTexts_weaves h) " " (by decide)
    rw [typeText]
    refine weaves_parenthesized ?_ nested
    exact ((surface.typeName_weaves hname).code [] (by decide)).part hargs

/-- The text of a type has no literal. -/
theorem typeText_weaves {nested : Bool} {ty : Ty} (h : ty.Proper nested) :
    Weaves [] [] (surface.typeText nested ty) [] := by
  induction h with
  | var hname _ _ => exact surface.typeName_weaves hname
  | constant hname _ => exact surface.typeName_weaves hname
  | @applied nested name args hname _ _ ih => exact surface.named_weaves hname ih nested
  | func _ _ ih =>
    have hparts := weaves_separated (surface.typeTexts_weaves ih) " -> " (by decide)
    rw [typeText]
    exact hparts.around [')'] (by decide) (by decide)

end Surface

/-! ## Texts put together -/

section Parts

variable {texts : List String} {bodies : List (List String)}

theorem weaves_listed (h : List.Forall₂ (Weaves [] []) texts bodies) (style : Style) :
    Weaves [] [] (style.list texts) bodies.flatten := by
  unfold Style.list
  split
  · cases h
    exact weaves_code [] (by decide)
  · cases h
    exact weaves_code [] (by decide)
  · exact (weaves_intercalate h (by decide)).around [']'] (by decide) (by decide)

theorem weaves_record (h : List.Forall₂ (Weaves [] []) texts bodies) (style : Style) :
    Weaves [] [] (style.record texts) bodies.flatten := by
  unfold Style.record
  split
  · cases h
    exact weaves_code [] (by decide)
  · cases h
    exact weaves_code [] (by decide)
  · exact (weaves_intercalate h (by decide)).around ['\x7d'] (by decide) (by decide)

theorem weaves_field (style : Style) {name text : String} {bodies : List String}
    (hname : isPlainName name) (h : Weaves [] [] text bodies) :
    Weaves [] [] (style.field name text) bodies := by
  have hmark : isCode [] [] style.fieldMark = true := by
    unfold Style.fieldMark
    split <;> decide
  exact ((weaves_name hname).code [] hmark).part h

theorem weaves_construct (h : List.Forall₂ (Weaves [] []) texts bodies) (style : Style)
    {tag : String} (htag : isPlainName tag) :
    Weaves [] [] (style.construct tag texts) bodies.flatten := by
  unfold Style.construct
  split
  · cases h
    exact weaves_name htag
  · exact ((weaves_name htag).code [] (by decide)).part (weaves_record h _)
  · exact (((weaves_name htag).code [')'] (by decide)).part (weaves_record h _)).code [] (by decide)

theorem weaves_arguments {args : List Expr} {texts : List String} {bodies : List (List String)}
    (h : List.Forall₂ (Weaves [] []) texts bodies) (hlength : args.length = texts.length) :
    List.Forall₂ (Weaves [] [])
      (args.zipWith (fun arg text => parenthesized arg.needsArgumentParens text) texts) bodies := by
  induction h generalizing args with
  | nil =>
    rw [List.zipWith_nil_right]
    exact .nil
  | cons htext _ ih =>
    obtain ⟨arg, args, rfl⟩ := List.exists_cons_of_length_eq_add_one hlength
    exact .cons (weaves_parenthesized htext _) (ih (Nat.succ.inj hlength))

theorem weaves_call (h : List.Forall₂ (Weaves [] []) texts bodies) (style : Style)
    {name : String} (hname : isPlainName name) {args : List Expr}
    (hlength : args.length = texts.length) :
    Weaves [] [] (style.call name args texts) bodies.flatten := by
  unfold Style.call
  split
  · exact (((weaves_name hname).code [')'] (by decide)).part
      (weaves_intercalate h (by decide))).code [] (by decide)
  · exact weaves_intercalate (.cons (weaves_name hname) (weaves_arguments h hlength)) (by decide)

theorem weaves_lambda {params : List String} (hparams : ∀ param ∈ params, isPlainName param)
    {body : String} {bodies : List String} (h : Weaves [] [] body bodies) :
    Weaves [] [] (Surface.lambdaText params body) bodies := by
  have hnames := weaves_names hparams " " (by decide)
  exact (((weaves_code [] (by decide)).part hnames).code [] (by decide)).part h

theorem lambdaParams_weaves (script : Script) {params : List String}
    (h : ∀ param ∈ params, isPlainName param) :
    IfOk (script.lambdaParams params) (Weaves [] [] · []) := by
  have heach : ∀ param ∈ params, IfOk (script.lambdaParam param) (Weaves [] [] · []) := by
    intro param hparam
    have hname := weaves_name (h param hparam)
    cases script with
    | javascript => exact ifOk_ok hname
    | typescript => exact ifOk_ok (hname.code [] (by decide))
    | bare => exact ifOk_error _
  exact (ifOk_mapM_all heach).map fun texts htexts => weaves_separated htexts ", " (by decide)

end Parts

section Conditionals

variable {test yes no : String} {tests yesses nos : List String}

theorem weaves_conditional (style : Style) (htest : Weaves [] [] test tests)
    (hyes : Weaves [] [] yes yesses) (hno : Weaves [] [] no nos) :
    Weaves [] [] (style.conditional test yes no) (tests ++ yesses ++ nos) := by
  have hparts {opening first second : String} (hopening : isCode [] [')'] opening = true)
      (hfirst : isCode [')'] [')'] first = true) (hsecond : isCode [')'] [')'] second = true) :
      Weaves [] [] (opening ++ test ++ first ++ yes ++ second ++ no ++ ")")
        (tests ++ yesses ++ nos) := by
    have htests := ((weaves_code _ hopening).part htest).code _ hfirst
    exact (((htests.part hyes).code _ hsecond).part hno).code [] (by decide)
  unfold Style.conditional
  split
  · exact hparts (by decide) (by decide) (by decide)
  · exact hparts (by decide) (by decide) (by decide)

theorem weaves_branches (style : Style) {indent : String} (hindent : Weaves [] [] indent [])
    (htest : Weaves [] [] test tests) (hyes : Weaves [] [] yes yesses)
    (hno : Weaves [] [] no nos) :
    IfOk (style.branches indent test yes no) (Weaves [] [] · (tests ++ yesses ++ nos)) := by
  cases style with
  | script _ =>
    refine ifOk_ok ?_
    have hif : Weaves [] ['\x7d'] (indent ++ "if (" ++ test ++ ") \x7b\n") tests :=
      ((hindent.code [')'] (by decide)).part htest).code _ (by decide)
    have helse : Weaves [] ['\x7d'] (indent ++ "if (" ++ test ++ ") \x7b\n" ++ yes ++ "\n" ++
        indent ++ "\x7d else \x7b\n") (tests ++ yesses) :=
      (((hif.part hyes).code ['\x7d'] (by decide)).plain hindent).code _ (by decide)
    exact (((helse.part hno).code ['\x7d'] (by decide)).plain hindent).code _ (by decide)
  | surface member =>
    have hgap : IfOk member.elseGap (Weaves [] [] · []) := by
      cases member with
      | derw => exact ifOk_ok weaves_empty
      | elm => exact ifOk_ok (weaves_code [] (by decide))
      | bare => exact ifOk_error _
    refine hgap.map fun gap hgap => ?_
    have hif : Weaves [] [] (indent ++ "if " ++ test ++ " then\n") tests :=
      ((hindent.code [] (by decide)).part htest).code _ (by decide)
    exact (((((hif.part hyes).plain hgap).code [] (by decide)).plain hindent).code
      [] (by decide)).part hno

end Conditionals

/-! ## Expressions -/

section Expressions

variable {dialect : Dialect}

theorem word_weaves {body : String} (h : Weaves [] [] body []) :
    Weaves [] [] (dialect.word body) [] := by
  unfold Dialect.word
  split
  · exact weaves_code [] (by decide)
  · exact weaves_code [] (by decide)
  · exact h

theorem operator_isCode (op : BinaryOp) :
    isCode [] [] (dialect.operator op) = true := by
  unfold Dialect.operator
  split
  · decide
  · decide
  · decide
  · cases op <;> decide

/-- From texts with the strings of its parts, a plan makes a text with the strings `bodies`. -/
def Plan.Weaves (plan : Plan) (bodies : List String) : Prop :=
  ∀ (count : Int) {inline below : List String},
    List.Forall₂ (Text.Weaves [] []) inline (plan.inline.map Expr.strings) →
    List.Forall₂ (Text.Weaves [] []) below (plan.below.map Expr.strings) →
    IfOk (plan.assemble (indentText count) inline below) (Text.Weaves [] [] · bodies)

theorem Plan.weaves_line {parts : List Expr} {f : List String → String} {bodies : List String}
    (h : ∀ {texts}, List.Forall₂ (Text.Weaves [] []) texts (parts.map Expr.strings) →
      Text.Weaves [] [] (f texts) bodies) : (Plan.line parts f).Weaves bodies :=
  fun _ _ _ hinline _ => ifOk_ok (h hinline)

theorem placed_weaves {plan : Except RenderError Plan} {bodies : List String}
    (h : IfOk plan (Plan.Weaves · bodies)) (slot : Slot) :
    IfOk (dialect.placed slot plan) (Plan.Weaves · bodies) := by
  cases slot with
  | inline => exact h
  | ownLines =>
    refine (ifOk_any _).bind fun style _ => h.map fun plan hplan count inline below hin hbelow => ?_
    refine (hplan count hin hbelow).map fun text htext => ?_
    have hindent := indentText_weaves count
    cases style with
    | script _ => exact ((hindent.code [] (by decide)).part htext).code [] (by decide)
    | surface _ => exact hindent.part htext

theorem weaves_fields (style : Style) {fields : List (String × Expr)}
    (hnames : ∀ field ∈ fields, isPlainName field.1) {texts : List String}
    (h : List.Forall₂ (Weaves [] []) texts ((fields.map Prod.snd).map Expr.strings)) :
    List.Forall₂ (Weaves [] []) (style.fields fields texts)
      ((fields.map Prod.snd).map Expr.strings) := by
  induction fields generalizing texts with
  | nil =>
    cases h
    exact .nil
  | cons field fields ih =>
    rw [List.forall_mem_cons] at hnames
    cases h with
    | cons htext htexts => exact .cons (weaves_field style hnames.1 htext) (ih hnames.2 htexts)

/-- The parts of a conditional stand in the order of the source, in a line and over several. -/
theorem cond_weaves {test yes no : Expr} (slot : Slot) :
    IfOk (dialect.plan slot (.cond test yes no))
      (Plan.Weaves · (test.strings ++ yes.strings ++ no.strings)) := by
  refine (ifOk_any _).bind fun style _ => ?_
  cases slot with
  | inline =>
    refine ifOk_ok (Plan.weaves_line ?_)
    rintro _ (_ | ⟨htest, _ | ⟨hyes, _ | ⟨hno, ⟨⟩⟩⟩⟩)
    exact weaves_conditional style htest hyes hno
  | ownLines =>
    refine ifOk_ok fun count inline below hinline hbelow => ?_
    rcases hinline with _ | ⟨htest, ⟨⟩⟩
    rcases hbelow with _ | ⟨hyes, _ | ⟨hno, ⟨⟩⟩⟩
    exact weaves_branches style (indentText_weaves count) htest hyes hno

theorem lambda_weaves {params : List String} {body : Expr}
    (hparams : ∀ param ∈ params, isPlainName param) (slot : Slot) :
    IfOk (dialect.plan slot (.lambda params body)) (Plan.Weaves · body.strings) := by
  refine (ifOk_any _).bind fun style _ => ?_
  cases style with
  | script script =>
    refine placed_weaves ((lambdaParams_weaves script hparams).map fun names hnames => ?_) slot
    intro count inline below _ hbelow
    rcases hbelow with _ | ⟨htext, ⟨⟩⟩
    have hhead : Weaves [] ['\x7d'] ("function(" ++ names ++ ") \x7b\n") [] :=
      ((weaves_code [')'] (by decide)).part hnames).code _ (by decide)
    exact ifOk_ok ((((hhead.part htext).code ['\x7d'] (by decide)).plain
      (indentText_weaves count)).code [] (by decide))
  | surface _ =>
    cases slot with
    | inline =>
      refine ifOk_ok (Plan.weaves_line ?_)
      rintro _ (_ | ⟨htext, ⟨⟩⟩)
      exact (weaves_lambda hparams htext).around [')'] (by decide) (by decide)
    | ownLines =>
      refine ifOk_ok fun count inline below hinline _ => ?_
      rcases hinline with _ | ⟨htext, ⟨⟩⟩
      exact ifOk_ok ((indentText_weaves count).part (weaves_lambda hparams htext))

theorem binary_weaves {op : BinaryOp} {left right : Expr} (slot : Slot) :
    IfOk (dialect.plan slot (.binary op left right))
      (Plan.Weaves · (left.strings ++ right.strings)) := by
  refine placed_weaves (ifOk_ok (Plan.weaves_line ?_)) slot
  rintro _ (_ | ⟨hleft, _ | ⟨hright, ⟨⟩⟩⟩)
  have hoperator : isCode [] [] (dialect.operator op) = true := operator_isCode op
  exact ((((weaves_parenthesized hleft _).code [] (by decide)).code [] hoperator).code []
    (by decide)).part (weaves_parenthesized hright _)

/-- A plan copies the strings of the expression, from left to right. -/
theorem plan_weaves {e : Expr} (h : e.Proper) (slot : Slot) :
    IfOk (dialect.plan slot e) (Plan.Weaves · e.strings) := by
  cases h with
  | name hname _ =>
    exact placed_weaves (ifOk_ok (Plan.weaves_line fun _ => word_weaves (weaves_name hname))) slot
  | number hdigits =>
    exact placed_weaves (ifOk_ok (Plan.weaves_line fun _ => word_weaves (weaves_numeral hdigits))) slot
  | negative hdigits =>
    have hbody := (weaves_code [] (by decide : isCode [] [] "-" = true)).plain
      (weaves_numeral hdigits)
    exact placed_weaves (ifOk_ok (Plan.weaves_line fun _ => word_weaves hbody)) slot
  | str hbody => exact placed_weaves (ifOk_ok (Plan.weaves_line fun _ => weaves_literal hbody)) slot
  | list _ =>
    rw [Expr.strings, Expr.stringsAll_eq_flatten]
    refine placed_weaves ((ifOk_any _).map fun style _ => Plan.weaves_line fun htexts => ?_) slot
    exact weaves_listed htexts style
  | record hnames _ =>
    rw [Expr.strings, Expr.stringsFields_eq_flatten]
    refine placed_weaves ((ifOk_any _).map fun style _ => Plan.weaves_line fun htexts => ?_) slot
    exact weaves_record (weaves_fields style hnames htexts) style
  | cond _ _ _ => exact cond_weaves slot
  | lambda _ hparams _ => exact lambda_weaves hparams slot
  | construct htag _ hnames _ =>
    rw [Expr.strings, Expr.stringsFields_eq_flatten]
    refine placed_weaves ((ifOk_any _).map fun style _ => Plan.weaves_line fun htexts => ?_) slot
    exact weaves_construct (weaves_fields style hnames htexts) style htag
  | call hname _ _ _ =>
    rw [Expr.strings, Expr.stringsAll_eq_flatten]
    refine placed_weaves ((ifOk_any _).map fun style _ => Plan.weaves_line fun htexts => ?_) slot
    refine weaves_call htexts style hname ?_
    rw [htexts.length_eq, List.length_map]
  | binary _ _ => exact binary_weaves slot

/-- What the parts of a plan copy, its run copies. -/
theorem run_weaves {plan : Except RenderError Plan} {bodies : List String}
    (h : IfOk plan fun plan => plan.Weaves bodies ∧ ∀ part ∈ plan.inline ++ plan.below,
      ∀ slot, (dialect.render slot part).Ensures (Weaves [] [] · part.strings)) :
    (dialect.run plan).Ensures (Weaves [] [] · bodies) := by
  intro count
  cases plan with
  | error error => exact ifOk_error _
  | ok plan =>
    obtain ⟨hweaves, hparts⟩ := h plan rfl
    rw [List.forall_mem_append] at hparts
    rw [Dialect.outcome_run]
    refine (ifOk_mapM fun part hpart => hparts.1 part hpart .inline count).bind fun inline hin => ?_
    refine (ifOk_mapM fun part hpart => hparts.2 part hpart .ownLines (count + 1)).bind
      fun below hbelow => ?_
    exact (hweaves count hin hbelow).stopAt count

/-- The literals in the text of an expression are its strings, from left to right. -/
theorem render_weaves {e : Expr} (h : e.Proper) (slot : Slot) :
    (dialect.render slot e).Ensures (Weaves [] [] · e.strings) := by
  induction e using Expr.induction_children generalizing slot with
  | h e ih =>
  rw [Dialect.render_run]
  refine run_weaves fun plan hplan => ⟨plan_weaves h slot plan hplan, fun part hpart => ?_⟩
  rw [Dialect.plan_parts slot e plan hplan] at hpart
  exact ih part hpart (h.of_mem_children hpart)

end Expressions

end Polyglot
