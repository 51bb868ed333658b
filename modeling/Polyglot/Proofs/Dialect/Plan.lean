import Polyglot.Proofs.Basic
import Polyglot.Proofs.Dialect.Outcome

/-!
# What a rendering is put together from

A `Plan` says without a counter how a text is made: which expressions stand inside its lines, which
stand on lines of their own one step further in, and how all their texts are put together. The
dialects differ in their plans and in nothing else, and every text, of an expression or of a
declaration, is the run of a plan.

Results:
1. `render_run`, `decl_run`: every rendering is the run of its plan.
2. `render_balanced`, `decl_balanced`: a rendering that succeeds leaves the counter as it found it,
   and one that fails can only leave it raised.
3. `outcome_run`: what the run of a plan gives, from what its parts give.
4. `run_ok`, `render_ok`: the same where all parts succeed.
-/

namespace Polyglot

/-! ## Parts of an expression -/

namespace Expr

/-- The expressions directly inside an expression, from left to right. -/
def children : Expr → List Expr
  | .value _ | .str _ | .unknown _ => []
  | .list items => items
  | .record _ fields => fields.map Prod.snd
  | .field _ content => [content]
  | .cond test yes no => [test, yes, no]
  | .lambda _ body => [body]
  | .construct _ _ fields => fields.map Prod.snd
  | .call _ args => args
  | .binary _ left right => [left, right]

mutual

theorem induction_children {P : Expr → Prop} (h : ∀ e, (∀ part ∈ e.children, P part) → P e) :
    ∀ e, P e
  | .value body => h (.value body) fun _ hpart => absurd hpart List.not_mem_nil
  | .str body => h (.str body) fun _ hpart => absurd hpart List.not_mem_nil
  | .unknown kind => h (.unknown kind) fun _ hpart => absurd hpart List.not_mem_nil
  | .list items => h (.list items) (induction_all h items)
  | .record base fields => h (.record base fields) (induction_fields h fields)
  | .field name content =>
      h (.field name content) (List.forall_mem_singleton.mpr (induction_children h content))
  | .cond test yes no => h (.cond test yes no) (List.forall_mem_cons.mpr
      ⟨induction_children h test, List.forall_mem_cons.mpr
        ⟨induction_children h yes, List.forall_mem_singleton.mpr (induction_children h no)⟩⟩)
  | .lambda params body =>
      h (.lambda params body) (List.forall_mem_singleton.mpr (induction_children h body))
  | .construct tag base fields => h (.construct tag base fields) (induction_fields h fields)
  | .call name args => h (.call name args) (induction_all h args)
  | .binary op left right => h (.binary op left right) (List.forall_mem_cons.mpr
      ⟨induction_children h left, List.forall_mem_singleton.mpr (induction_children h right)⟩)

theorem induction_all {P : Expr → Prop} (h : ∀ e, (∀ part ∈ e.children, P part) → P e) :
    ∀ items : List Expr, ∀ e ∈ items, P e
  | [], _, he => absurd he List.not_mem_nil
  | first :: rest, _, he => (List.mem_cons.mp he).elim
      (fun heq => heq ▸ induction_children h first) (induction_all h rest _)

theorem induction_fields {P : Expr → Prop} (h : ∀ e, (∀ part ∈ e.children, P part) → P e) :
    ∀ fields : List (String × Expr), ∀ e ∈ fields.map Prod.snd, P e
  | [], _, he => absurd he List.not_mem_nil
  | (_, content) :: rest, _, he => (List.mem_cons.mp he).elim
      (fun heq => heq ▸ induction_children h content) (induction_fields h rest _)

end

end Expr

/-- The expressions directly inside a declaration. -/
def Decl.children : Decl → List Expr
  | .function equation | .const equation => [equation.body]
  | .union _ | .unknown _ => []

open Render

/-! ## Plans -/

/-- How a text is put together: the expressions inside its lines, those on lines of their own one
step further in, and what is made of the indent and of their texts. -/
structure Plan where
  inline : List Expr
  below : List Expr
  assemble : (indent : String) → (inline below : List String) → Except RenderError String

/-- A text inside a line. -/
def Plan.line (parts : List Expr) (f : List String → String) : Plan where
  inline := parts
  below := []
  assemble _ texts _ := .ok (f texts)

/-- The texts of fields, from those of their contents. -/
def Style.fields (style : Style) (fields : List (String × Expr)) (texts : List String) :
    List String :=
  fields.zipWith (fun field text => style.field field.1 text) texts

namespace Dialect

/-- Puts a text that fits into a line where `slot` says. -/
def placed (dialect : Dialect) (slot : Slot) (plan : Except RenderError Plan) :
    Except RenderError Plan :=
  match slot with
  | .inline => plan
  | .ownLines => do
      let style ← dialect.style
      let plan ← plan
      return { plan with
        assemble := fun indent inline below => do
          let text ← plan.assemble indent inline below
          return style.statement indent text }

/-- The plan of an expression. Nothing is made of texts that are not those of its parts. -/
def plan (dialect : Dialect) (slot : Slot) : Expr → Except RenderError Plan
  | .value body => dialect.placed slot (.ok (.line [] fun _ => dialect.word body))
  | .str body => dialect.placed slot (.ok (.line [] fun _ => "\"" ++ body ++ "\""))
  | .list items => dialect.placed slot do
      let style ← dialect.style
      return .line items style.list
  | .record _ fields => dialect.placed slot do
      let style ← dialect.style
      return .line (fields.map Prod.snd) fun texts => style.record (style.fields fields texts)
  | .field name content => dialect.placed slot do
      let style ← dialect.style
      return .line [content] fun
        | [text] => style.field name text
        | _ => ""
  | .cond test yes no => do
      let style ← dialect.style
      match slot with
      | .inline => return .line [test, yes, no] fun
          | [test, yes, no] => style.conditional test yes no
          | _ => ""
      | .ownLines => return {
          inline := [test]
          below := [yes, no]
          assemble := fun
            | indent, [test], [yes, no] => style.branches indent test yes no
            | _, _, _ => .ok "" }
  | .lambda params body => do
      let style ← dialect.style
      match style, slot with
      | .script script, slot => dialect.placed slot do
          let params ← script.lambdaParams params
          return {
            inline := []
            below := [body]
            assemble := fun
              | indent, _, [body] =>
                  .ok ("function(" ++ params ++ ") \x7b\n" ++ body ++ "\n" ++ indent ++ "\x7d")
              | _, _, _ => .ok "" }
      | .surface _, .inline => return .line [body] fun
          | [body] => "(" ++ Surface.lambdaText params body ++ ")"
          | _ => ""
      | .surface _, .ownLines => return {
          inline := [body]
          below := []
          assemble := fun
            | indent, [body], _ => .ok (indent ++ Surface.lambdaText params body)
            | _, _, _ => .ok "" }
  | .construct tag _ fields => dialect.placed slot do
      let style ← dialect.style
      return .line (fields.map Prod.snd) fun texts => style.construct tag (style.fields fields texts)
  | .call name args => dialect.placed slot do
      let style ← dialect.style
      return .line args (style.call name args)
  | .binary op left right => dialect.placed slot <| .ok <| .line [left, right] fun
      | [leftText, rightText] =>
          operandText .left left op.precedence leftText ++ " " ++ dialect.operator op ++ " " ++
            operandText .right right op.precedence rightText
      | _ => ""
  | .unknown kind => .error (.unknownExpr kind)

/-- The plan of a function or of a constant in a surface dialect. -/
def equationPlan (signature head : String) (body : Expr) : Plan where
  inline := []
  below := [body]
  assemble
    | _, _, [text] => .ok (signature ++ "\n" ++ head ++ "\n" ++ text)
    | _, _, _ => .ok ""

/-- The plan of a declaration. -/
def declPlan (dialect : Dialect) : Decl → Except RenderError Plan
  | .union union => do
      let text ← match ← dialect.style with
        | .script script => script.union union
        | .surface surface => surface.union union
      return .line [] fun _ => text
  | .function equation => do
      match ← dialect.style with
      | .script script => do
          let header ← script.header equation
          return {
            inline := []
            below := [equation.body]
            assemble := fun
              | indent, _, [body] => .ok (header ++ "\n" ++ body ++ "\n" ++ indent ++ "\x7d")
              | _, _, _ => .ok "" }
      | .surface surface =>
          return equationPlan (surface.signatureLine equation.name equation.signature)
            (equation.name ++ " " ++ " ".intercalate (equation.params.map Binding.name) ++ " =")
            equation.body
  | .const equation => do
      match ← dialect.style with
      | .script script =>
          return {
            inline := [equation.body]
            below := []
            assemble := fun
              | _, [body], _ => do
                  let ascription ← script.ascription equation.result
                  return "const " ++ equation.name ++ ascription ++ " = " ++ body ++ ";"
              | _, _, _ => .ok "" }
      | .surface surface =>
          return equationPlan
            (surface.signatureLine equation.name (Surface.constTypes equation.result))
            (equation.name ++ " =") equation.body
  | .unknown node => .error (.unknownDecl node.kind)

theorem plan_lambda {script : Script} {params : List String} {names : String}
    (h : script.lambdaParams params = .ok names) (body : Expr) :
    (styled (.script script)).plan .inline (.lambda params body) = .ok ⟨[], [body], fun
      | indent, _, [body] =>
          .ok ("function(" ++ names ++ ") \x7b\n" ++ body ++ "\n" ++ indent ++ "\x7d")
      | _, _, _ => .ok ""⟩ := by
  show (script.lambdaParams params >>= _) = _
  rw [h]
  rfl

theorem declPlan_function {script : Script} {equation : Equation} {header : String}
    (h : script.header equation = .ok header) :
    (styled (.script script)).declPlan (.function equation) = .ok ⟨[], [equation.body], fun
      | indent, _, [body] => .ok (header ++ "\n" ++ body ++ "\n" ++ indent ++ "\x7d")
      | _, _, _ => .ok ""⟩ := by
  show (script.header equation >>= _) = _
  rw [h]
  rfl

/-! ## Running a plan -/

def run (dialect : Dialect) (plan : Except RenderError Plan) : Render String := do
  let plan ← plan
  let indent ← Render.indentation
  let inline ← plan.inline.mapM (dialect.render .inline)
  let below ← Render.indented (plan.below.mapM (dialect.render .ownLines))
  plan.assemble indent inline below

variable {dialect : Dialect}

theorem renderAll_eq (parts : List Expr) :
    dialect.renderAll parts = parts.mapM (dialect.render .inline) := by
  induction parts with
  | nil => rfl
  | cons part parts ih => rw [renderAll, ih, List.mapM_cons]

theorem decls_eq (body : List Decl) : dialect.decls body = body.mapM dialect.decl := by
  induction body with
  | nil => rfl
  | cons decl rest ih => rw [decls, ih, List.mapM_cons]

theorem mapM_singleton {α β : Type} (f : α → Render β) (item : α) :
    [item].mapM f = (fun value => [value]) <$> f item := by
  simp only [List.mapM_cons, List.mapM_nil, map_eq_pure_bind, pure_bind]

theorem run_line (parts : List Expr) (f : List String → String) :
    dialect.run (.ok (.line parts f)) = f <$> parts.mapM (dialect.render .inline) := by
  rw [run, lift_ok, pure_bind]
  simp only [Plan.line, List.mapM_nil, indented_pure, pure_bind, lift_ok]
  rw [map_eq_pure_bind]
  rfl

theorem run_bind {α : Type} (step : Except RenderError α) (f : α → Except RenderError Plan) :
    dialect.run (step >>= f) = (liftM step : Render α) >>= fun a => dialect.run (f a) := by
  rw [run, lift_bind, bind_assoc]
  rfl

theorem run_placed (slot : Slot) (plan : Except RenderError Plan) :
    dialect.run (dialect.placed slot plan) = dialect.place slot (dialect.run plan) := by
  cases slot with
  | inline => rfl
  | ownLines =>
    rw [placed, run_bind, place]
    refine bind_congr fun style => ?_
    cases plan with
    | error error => rfl
    | ok plan =>
      show dialect.run (.ok _) = _
      rw [run, run, lift_ok, lift_ok, pure_bind, pure_bind]
      simp only [bind_assoc, lift_bind]
      rfl

/-- Two branches are rendered one step further in at once. -/
theorem run_branches (test yes no : Expr)
    (f : (indent test yes no : String) → Except RenderError String) :
    dialect.run (.ok ⟨[test], [yes, no], fun
        | indent, [test], [yes, no] => f indent test yes no
        | _, _, _ => .ok ""⟩) = (do
      let indent ← Render.indentation
      let test ← dialect.render .inline test
      let branches ← Render.indented do
        let yes ← dialect.render .ownLines yes
        let no ← dialect.render .ownLines no
        return (yes, no)
      f indent test branches.1 branches.2 : Render String) := by
  have hbranches : [yes, no].mapM (dialect.render .ownLines) =
      (fun branches : String × String => [branches.1, branches.2]) <$> (do
        let yes ← dialect.render .ownLines yes
        let no ← dialect.render .ownLines no
        return (yes, no)) := by
    simp only [List.mapM_cons, List.mapM_nil, map_eq_pure_bind, bind_assoc, pure_bind]
  rw [run, lift_ok, pure_bind]
  dsimp only
  rw [hbranches, indented_map]
  simp only [List.mapM_cons, List.mapM_nil, map_eq_pure_bind, bind_assoc, pure_bind]

/-- The indent in front of a closing line is read behind the body. -/
theorem run_closing {body : Expr} (h : (dialect.render .ownLines body).Balanced)
    (f : (indent body : String) → String) :
    dialect.run (.ok ⟨[], [body], fun
        | indent, _, [body] => .ok (f indent body)
        | _, _, _ => .ok ""⟩) = (do
      let body ← Render.indented (dialect.render .ownLines body)
      let indent ← Render.indentation
      return f indent body : Render String) := by
  rw [run, lift_ok, pure_bind]
  dsimp only
  rw [mapM_singleton, indented_map]
  simp only [List.mapM_nil, map_eq_pure_bind, bind_assoc, pure_bind, lift_ok]
  exact indentation_comm h.indented _

theorem renderFields_eq {style : Style} (h : dialect.style = .ok style)
    (fields : List (String × Expr)) :
    dialect.renderFields fields =
      style.fields fields <$> (fields.map Prod.snd).mapM (dialect.render .inline) := by
  induction fields with
  | nil => rfl
  | cons field fields ih =>
    rw [renderFields, h, lift_ok, pure_bind, ih, List.map_cons, List.mapM_cons]
    simp only [map_eq_pure_bind, bind_assoc, pure_bind]
    rfl

/-- Fields that the style puts together. -/
theorem fields_eq_run (fields : List (String × Expr)) (f : Style → List String → String) :
    (do
      let style ← dialect.style
      let texts ← dialect.renderFields fields
      return f style texts : Render String) = dialect.run (do
        let style ← dialect.style
        return .line (fields.map Prod.snd) fun texts => f style (style.fields fields texts)) := by
  rw [run_bind]
  cases hstyle : dialect.style with
  | error error => rfl
  | ok style =>
    rw [lift_ok, pure_bind, pure_bind, renderFields_eq hstyle, ← map_eq_pure_bind,
      Functor.map_map]
    exact (run_line _ _).symm

/-- An expression is rendered by its plan, if its parts leave the counter alone. -/
theorem render_eq_run {e : Expr} {slot : Slot}
    (h : ∀ part ∈ e.children, (dialect.render .ownLines part).Balanced) :
    dialect.render slot e = dialect.run (dialect.plan slot e) := by
  cases e with
  | value body | str body =>
    rw [render, plan, run_placed, run_line]
    rfl
  | list items | call _ items =>
    rw [render, plan, run_placed, run_bind]
    refine congrArg (dialect.place slot) (bind_congr fun style => ?_)
    rw [← map_eq_pure_bind, renderAll_eq]
    exact (run_line items _).symm
  | record base fields =>
    rw [render, plan, run_placed]
    exact congrArg (dialect.place slot) (fields_eq_run fields Style.record)
  | construct tag base fields =>
    rw [render, plan, run_placed]
    exact congrArg (dialect.place slot) (fields_eq_run fields (Style.construct · tag))
  | field name content =>
    rw [render, plan, run_placed, run_bind]
    refine congrArg (dialect.place slot) (bind_congr fun style => ?_)
    refine Eq.trans ?_ (run_line _ _).symm
    simp only [List.mapM_cons, List.mapM_nil, map_eq_pure_bind, bind_assoc, pure_bind]
  | cond test yes no =>
    rw [render, plan, run_bind]
    refine bind_congr fun style => ?_
    cases slot with
    | inline =>
      refine Eq.trans ?_ (run_line _ _).symm
      simp only [List.mapM_cons, List.mapM_nil, map_eq_pure_bind, bind_assoc, pure_bind]
    | ownLines => exact (run_branches test yes no style.branches).symm
  | lambda params body =>
    rw [render, plan, run_bind]
    refine bind_congr fun style => ?_
    cases style with
    | script script =>
      dsimp only
      rw [run_placed, run_bind]
      refine congrArg (dialect.place slot) (bind_congr fun params => ?_)
      exact (run_closing (h body List.mem_cons_self) _).symm
    | surface member =>
      cases slot with
      | inline =>
        refine Eq.trans ?_ (run_line _ _).symm
        simp only [List.mapM_cons, List.mapM_nil, map_eq_pure_bind, bind_assoc, pure_bind]
      | ownLines =>
        show _ = dialect.run (.ok _)
        rw [run, lift_ok, pure_bind]
        simp only [List.mapM_cons, List.mapM_nil, bind_assoc, pure_bind, indented_pure, lift_ok]
  | binary op left right =>
    rw [render, plan, run_placed, run_line]
    refine congrArg (dialect.place slot) ?_
    simp only [List.mapM_cons, List.mapM_nil, map_eq_pure_bind, bind_assoc, pure_bind]
  | unknown kind =>
    rw [render]
    rfl

/-! ## Parts of a plan -/

theorem placed_parts {slot : Slot} {plan : Except RenderError Plan} {parts : List Expr}
    (h : IfOk plan fun plan => plan.inline ++ plan.below = parts) :
    IfOk (dialect.placed slot plan) fun plan => plan.inline ++ plan.below = parts := by
  cases slot with
  | inline => exact h
  | ownLines => exact (ifOk_any _).bind fun style _ => h.map fun plan hplan => hplan

/-- The parts of a plan are those of the expression, from left to right. -/
theorem plan_parts (slot : Slot) (e : Expr) :
    IfOk (dialect.plan slot e) fun plan => plan.inline ++ plan.below = e.children := by
  have hline : ∀ (parts : List Expr) (f : Style → List String → String),
      IfOk (dialect.placed slot do let style ← dialect.style; return .line parts (f style))
        fun plan => plan.inline ++ plan.below = parts :=
    fun parts f => placed_parts ((ifOk_any _).map fun style _ => List.append_nil parts)
  cases e with
  | value body | str body | binary _ left right => exact placed_parts (ifOk_ok rfl)
  | list items | call _ items => exact hline items _
  | record _ fields | construct _ _ fields => exact hline _ fun style texts => _
  | field name content => exact hline [content] _
  | cond test yes no =>
    refine (ifOk_any _).bind fun style _ => ?_
    cases slot with
    | inline => exact ifOk_ok rfl
    | ownLines => exact ifOk_ok rfl
  | lambda params body =>
    refine (ifOk_any _).bind fun style _ => ?_
    cases style with
    | script script => exact placed_parts ((ifOk_any _).map fun params _ => rfl)
    | surface member => cases slot <;> exact ifOk_ok rfl
  | unknown kind => exact ifOk_error _

theorem declPlan_parts (decl : Decl) :
    IfOk (dialect.declPlan decl) fun plan => plan.inline ++ plan.below = decl.children := by
  cases decl with
  | union declared =>
    refine (ifOk_any _).bind fun style _ => ?_
    cases style with
    | script script => exact (ifOk_any _).map fun text _ => rfl
    | surface member => exact (ifOk_any _).map fun text _ => rfl
  | function declared =>
    refine (ifOk_any _).bind fun style _ => ?_
    cases style with
    | script script => exact (ifOk_any _).map fun header _ => rfl
    | surface member => exact ifOk_ok rfl
  | const declared =>
    refine (ifOk_any _).bind fun style _ => ?_
    cases style with
    | script script => exact ifOk_ok rfl
    | surface member => exact ifOk_ok rfl
  | unknown node => exact ifOk_error _

/-! ## The counter -/

theorem run_balanced_of_parts {plan : Except RenderError Plan}
    (h : IfOk plan fun plan => ∀ part ∈ plan.inline ++ plan.below, ∀ slot,
      (dialect.render slot part).Balanced) : (dialect.run plan).Balanced := by
  cases plan with
  | error error => exact balanced_throw error
  | ok plan =>
    obtain ⟨hinline, hbelow⟩ := List.forall_mem_append.mp (h plan rfl)
    rw [run, lift_ok, pure_bind]
    refine balanced_indentation.bind fun indent => ?_
    refine (balanced_mapM fun part hpart => hinline part hpart .inline).bind fun inline => ?_
    refine (balanced_mapM fun part hpart => hbelow part hpart .ownLines).indented.bind
      fun below => ?_
    exact balanced_lift _

/-- Rendering an expression is balanced in either slot. -/
theorem render_balanced (e : Expr) (slot : Slot) : (dialect.render slot e).Balanced := by
  induction e using Expr.induction_children generalizing slot with
  | h e ih =>
  rw [render_eq_run fun part hpart => ih part hpart .ownLines]
  refine run_balanced_of_parts fun plan hplan part hpart => ih part ?_
  rwa [plan_parts slot e plan hplan] at hpart

theorem run_balanced (plan : Except RenderError Plan) : (dialect.run plan).Balanced :=
  run_balanced_of_parts fun _ _ part _ slot => render_balanced part slot

theorem render_run (e : Expr) (slot : Slot) :
    dialect.render slot e = dialect.run (dialect.plan slot e) :=
  render_eq_run fun part _ => render_balanced part .ownLines

theorem run_equation (signature head : String) (body : Expr) :
    dialect.run (.ok (equationPlan signature head body)) = (do
      let text ← Render.indented (dialect.body body)
      return signature ++ "\n" ++ head ++ "\n" ++ text : Render String) := by
  have hbody : (dialect.render .ownLines body).Balanced := render_balanced body .ownLines
  exact run_closing hbody fun _ text => signature ++ "\n" ++ head ++ "\n" ++ text

/-- A declaration is rendered by its plan. -/
theorem decl_run (decl : Decl) : dialect.decl decl = dialect.run (dialect.declPlan decl) := by
  cases dialect with
  | bare => cases decl <;> rfl
  | styled style =>
    cases decl with
    | union declared =>
      have htext : ∀ step : Except RenderError String, (liftM step : Render String) =
          (styled style).run (do let text ← step; return .line [] fun _ => text) := by
        intro step
        rw [run_bind]
        refine Eq.trans (bind_pure _).symm (bind_congr fun text => ?_)
        show pure text = (styled style).run (.ok (.line [] fun _ => text))
        rw [run_line, List.mapM_nil, map_pure]
      cases style with
      | script script => exact htext _
      | surface member => exact htext _
    | function declared =>
      cases style with
      | script script =>
        refine Eq.trans ?_ (run_bind (script.header declared) _).symm
        exact bind_congr fun header =>
          (run_closing (render_balanced declared.body .ownLines) _).symm
      | surface member => exact (run_equation _ _ declared.body).symm
    | const declared =>
      cases style with
      | script script =>
        show _ = run _ (.ok _)
        rw [run, lift_ok, pure_bind]
        simp only [List.mapM_cons, List.mapM_nil, bind_assoc, pure_bind, indented_pure, lift_bind]
        rfl
      | surface member => exact (run_equation _ _ declared.body).symm
    | unknown node => rfl

/-- Rendering a declaration is balanced. -/
theorem decl_balanced (decl : Decl) : (dialect.decl decl).Balanced := by
  rw [decl_run]
  exact run_balanced _

theorem decls_balanced (body : List Decl) : (dialect.decls body).Balanced := by
  rw [decls_eq]
  exact balanced_mapM fun decl _ => decl_balanced decl

/-! ## What a plan gives -/

/-- What the run of a plan gives, from what its parts give. -/
theorem outcome_run (plan : Plan) (count : Int) :
    (dialect.run (.ok plan)).outcome count = (do
      let inline ← plan.inline.mapM fun part => (dialect.render .inline part).outcome count
      let below ← plan.below.mapM fun part => (dialect.render .ownLines part).outcome (count + 1)
      stopAt count (plan.assemble (indentText count) inline below)) := by
  rw [run, lift_ok, pure_bind, outcome_bind balanced_indentation]
  show (plan.inline.mapM (dialect.render .inline) >>= _ : Render String).outcome count = _
  rw [outcome_bind (balanced_mapM fun part _ => render_balanced part .inline),
    outcome_mapM fun part => render_balanced part .inline]
  refine bind_congr fun inline => ?_
  rw [outcome_bind (balanced_mapM fun part _ => render_balanced part .ownLines).indented,
    outcome_indented, outcome_mapM fun part => render_balanced part .ownLines]
  exact bind_congr fun below => outcome_lift _ count

/-- A plan all of whose parts succeed. -/
theorem run_ok {plan : Plan} {count : Int} {inline below : List String} {text : String}
    (hinline : List.Forall₂ (fun part text => dialect.render .inline part count = .ok text count)
      plan.inline inline)
    (hbelow : List.Forall₂
      (fun part text => dialect.render .ownLines part (count + 1) = .ok text (count + 1))
      plan.below below)
    (htext : plan.assemble (indentText count) inline below = .ok text) :
    dialect.run (.ok plan) count = .ok text count := by
  refine (run_balanced _).eq_ok ?_
  have hinline' := mapM_eq_ok_of_forall₂ (hinline.imp fun _ _ hpart => outcome_of_ok hpart)
  have hbelow' := mapM_eq_ok_of_forall₂ (hbelow.imp fun _ _ hpart => outcome_of_ok hpart)
  rw [outcome_run, hinline', hbelow']
  simp only [stopAt, Except.mapError, htext, Bind.bind, Except.bind]

theorem render_ok {slot : Slot} {e : Expr} {plan : Plan} {count : Int} {inline below : List String}
    {text : String} (hplan : dialect.plan slot e = .ok plan)
    (hinline : List.Forall₂ (fun part text => dialect.render .inline part count = .ok text count)
      plan.inline inline)
    (hbelow : List.Forall₂
      (fun part text => dialect.render .ownLines part (count + 1) = .ok text (count + 1))
      plan.below below)
    (htext : plan.assemble (indentText count) inline below = .ok text) :
    dialect.render slot e count = .ok text count := by
  rw [render_run, hplan]
  exact run_ok hinline hbelow htext

/-- A text that fits into a line, on lines of its own. -/
theorem render_statement {style : Style} {e : Expr} {count : Int} {text : String}
    (hplan : (styled style).plan .ownLines e =
      (styled style).placed .ownLines ((styled style).plan .inline e))
    (htext : (styled style).render .inline e count = .ok text count) :
    (styled style).render .ownLines e count =
      .ok (style.statement (indentText count) text) count := by
  rw [render_run, hplan, run_placed, ← render_run]
  show (do
    let text ← (styled style).render .inline e
    return style.statement (indentText count) text : Render String) count = _
  simp only [Bind.bind, EStateM.bind, htext]
  rfl

theorem outcome_decls (body : List Decl) (count : Int) :
    (dialect.decls body).outcome count = body.mapM fun decl => (dialect.decl decl).outcome count := by
  rw [decls_eq, outcome_mapM decl_balanced]

/-- A program is emitted from the left margin on, whatever the counter is. -/
theorem outcome_emit (body : List Decl) (count : Int) :
    (dialect.emit body).outcome count = (do
      let texts ← body.mapM fun decl => (dialect.decl decl).outcome 0
      return "\n\n".intercalate texts) := by
  rw [← outcome_decls]
  show (do
    let texts ← dialect.decls body
    return "\n\n".intercalate texts : Render String).outcome 0 = _
  rw [outcome_bind (decls_balanced body)]
  rfl

end Dialect

end Polyglot
