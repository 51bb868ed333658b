import Polyglot.Proofs.Dialect.Plan

/-!
# Texts that differ in types only

Typescript and javascript render an expression alike, but for the types. To say where the types
stand, a text is cut into fragments: some are code, and some are there for types only. Two texts are
`Twins` if one is written from all the fragments and the other from the code alone.

A fragment for types is not free to stand anywhere. A `License` is asked about each of them, with
the text before it and the text behind it.

Results:
1. `Twins.join`, `Twins.snoc`: twins are put together from twins.
2. `plan_coupled`: both scripts make twins of the twins that the parts of an expression are.
3. `render_coupled`: both scripts render an expression as twins, or fail alike. The fragments for
   types are those of the parameters of lambdas.
4. `render_eq`: without such parameters both render the same.
-/

namespace Polyglot

/-! ## Fragments -/

/-- A part of a text: code, or something that is there for types only. -/
inductive Fragment where
  | code (text : String)
  | typed (text : String)
deriving DecidableEq, Repr

def Fragment.text : Fragment → String
  | .code text => text
  | .typed text => text

def Fragment.codeText : Fragment → String
  | .code text => text
  | .typed _ => ""

/-- The text of all fragments. -/
def written (fragments : List Fragment) : String :=
  String.join (fragments.map Fragment.text)

/-- The text of the code alone. -/
def erased (fragments : List Fragment) : String :=
  String.join (fragments.map Fragment.codeText)

@[simp] theorem written_cons (fragment : Fragment) (fragments : List Fragment) :
    written (fragment :: fragments) = fragment.text ++ written fragments :=
  String.join_cons

@[simp] theorem written_append (front back : List Fragment) :
    written (front ++ back) = written front ++ written back := by
  simp [written]

@[simp] theorem erased_cons (fragment : Fragment) (fragments : List Fragment) :
    erased (fragment :: fragments) = fragment.codeText ++ erased fragments :=
  String.join_cons

@[simp] theorem erased_append (front back : List Fragment) :
    erased (front ++ back) = erased front ++ erased back := by
  simp [erased]

/-- Which fragments may be there for types only, by the text before and the text behind them. -/
abbrev License := (before piece after : String) → Prop

/-- Each fragment for types has its license, behind the text `before` and what precedes it. -/
def Licensed (license : License) : (before : String) → List Fragment → Prop
  | _, [] => True
  | before, .code text :: rest => Licensed license (before ++ text) rest
  | before, .typed text :: rest =>
      license before text (written rest) ∧ Licensed license (before ++ text) rest

/-- Fragments can be moved behind another text if their licenses allow it. -/
theorem Licensed.behind {license license' : License} {front before : String}
    {fragments : List Fragment} (h : Licensed license before fragments)
    (hfront : ∀ before piece after, license before piece after →
      license' (front ++ before) piece after) : Licensed license' (front ++ before) fragments := by
  induction fragments generalizing before with
  | nil => trivial
  | cons fragment rest ih =>
    cases fragment with
    | code text =>
      rw [Licensed, String.append_assoc]
      exact ih h
    | typed text =>
      rw [Licensed, String.append_assoc]
      exact ⟨hfront _ _ _ h.1, ih h.2⟩

theorem Licensed.append {license license' : License} {before : String} {front back : List Fragment}
    (h : Licensed license before front) (h' : Licensed license' (before ++ written front) back)
    (hback : ∀ before piece after, license before piece after →
      license' before piece (after ++ written back)) :
    Licensed license' before (front ++ back) := by
  induction front generalizing before with
  | nil =>
    rw [show written [] = "" from rfl, String.append_empty] at h'
    exact h'
  | cons fragment rest ih =>
    rw [written_cons, ← String.append_assoc] at h'
    cases fragment with
    | code text => exact ih h h'
    | typed text =>
      rw [List.cons_append, Licensed, written_append]
      exact ⟨hback _ _ _ h.1, ih h.2 h'⟩

/-! ## Twins -/

/-- Two texts that are alike but for fragments of the first that are there for types only. -/
def Twins (license : License) (text codeText : String) : Prop :=
  ∃ fragments, written fragments = text ∧ erased fragments = codeText ∧
    Licensed license "" fragments

/-- A license that is kept when more text is put around, at a separator. -/
def License.Stable (license : License) (sep : String) : Prop :=
  ∀ before piece after, license before piece after →
    (∀ front, license (front ++ sep ++ before) piece after) ∧
      ∀ back, license before piece (after ++ sep ++ back)

section Composition

variable {license : License}

theorem twins_code (text : String) : Twins license text text :=
  ⟨[.code text], by simp [written, Fragment.text], by simp [erased, Fragment.codeText], trivial⟩

theorem Twins.imp {license' : License} {text codeText : String} (h : Twins license text codeText)
    (himp : ∀ before piece after, license before piece after → license' before piece after) :
    Twins license' text codeText := by
  obtain ⟨fragments, hwritten, herased, hlicensed⟩ := h
  refine ⟨fragments, hwritten, herased, ?_⟩
  have hmoved : Licensed license' ("" ++ "") fragments :=
    hlicensed.behind fun before piece after hpiece => by
      rw [String.empty_append]
      exact himp before piece after hpiece
  rwa [String.empty_append] at hmoved

/-- Something for types, behind twins. -/
theorem Twins.snoc {text codeText piece : String} (h : Twins license text codeText)
    (hpiece : license text piece "")
    (hback : ∀ before other after, license before other after →
      license before other (after ++ piece)) : Twins license (text ++ piece) codeText := by
  obtain ⟨fragments, rfl, rfl, hlicensed⟩ := h
  refine ⟨fragments ++ [.typed piece], ?_, ?_, ?_⟩
  · simp [written, Fragment.text]
  · simp [erased, Fragment.codeText]
  · refine hlicensed.append ?_ fun before other after hother => ?_
    · rw [String.empty_append]
      exact ⟨hpiece, trivial⟩
    · rw [show written [.typed piece] = piece by simp [written, Fragment.text]]
      exact hback before other after hother

/-- Something for types, before twins. -/
theorem Twins.cons {text codeText piece : String} (h : Twins license text codeText)
    (hpiece : ∀ after, license "" piece after)
    (hfront : ∀ before other after, license before other after →
      license (piece ++ before) other after) : Twins license (piece ++ text) codeText := by
  obtain ⟨fragments, rfl, rfl, hlicensed⟩ := h
  refine ⟨.typed piece :: fragments, ?_, ?_, hpiece _, ?_⟩
  · rw [written_cons, Fragment.text]
  · rw [erased_cons, Fragment.codeText, String.empty_append]
  · have hmoved := hlicensed.behind hfront
    rwa [String.append_empty, ← String.empty_append (s := piece)] at hmoved

theorem Twins.join {sep : String} (hstable : license.Stable sep) {a a' b b' : String}
    (h : Twins license a b) (h' : Twins license a' b') :
    Twins license (a ++ sep ++ a') (b ++ sep ++ b') := by
  obtain ⟨fragments, rfl, rfl, hlicensed⟩ := h
  obtain ⟨fragments', rfl, rfl, hlicensed'⟩ := h'
  refine ⟨fragments ++ .code sep :: fragments', ?_, ?_, ?_⟩
  · rw [written_append, written_cons, Fragment.text, String.append_assoc]
  · rw [erased_append, erased_cons, Fragment.codeText, String.append_assoc]
  · refine hlicensed.append ?_ fun before piece after hpiece => ?_
    · have hmoved := hlicensed'.behind fun before piece after hpiece =>
        (hstable before piece after hpiece).1 (written fragments)
      rwa [String.append_empty, ← String.empty_append (s := written fragments)] at hmoved
    · rw [written_cons, Fragment.text, ← String.append_assoc]
      exact (hstable before piece after hpiece).2 (written fragments')

theorem Twins.intercalate {sep : String} (hstable : license.Stable sep)
    {texts codeTexts : List String}
    (h : List.Forall₂ (Twins license) texts codeTexts) :
    Twins license (sep.intercalate texts) (sep.intercalate codeTexts) := by
  induction h with
  | nil => exact twins_code ""
  | @cons a b as bs hab hrest ih =>
    cases hrest with
    | nil =>
      rw [String.intercalate_singleton, String.intercalate_singleton]
      exact hab
    | cons _ _ =>
      rw [String.intercalate_cons_cons, String.intercalate_cons_cons]
      exact hab.join hstable ih

/-- A license that is kept whatever is put around. -/
def License.Local (license : License) : Prop :=
  ∀ sep, license.Stable sep

theorem Twins.append (hlocal : license.Local) {a a' b b' : String} (h : Twins license a b)
    (h' : Twins license a' b') : Twins license (a ++ a') (b ++ b') := by
  have hjoined := h.join (hlocal "") h'
  rwa [String.append_empty, String.append_empty] at hjoined

theorem Twins.code (hlocal : license.Local) {a b : String} (h : Twins license a b) (text : String) :
    Twins license (a ++ text) (b ++ text) :=
  h.append hlocal (twins_code text)

theorem Twins.around (hlocal : license.Local) {a b : String} (h : Twins license a b)
    (opening closing : String) :
    Twins license (opening ++ a ++ closing) (opening ++ b ++ closing) :=
  ((twins_code opening).append hlocal h).code hlocal closing

theorem Twins.parenthesized (hlocal : license.Local) {a b : String} (h : Twins license a b)
    (condition : Bool) :
    Twins license (parenthesized condition a) (Polyglot.parenthesized condition b) := by
  unfold Polyglot.parenthesized
  split
  · exact h.around hlocal "(" ")"
  · exact h

/-- Without a license there is only code. -/
theorem Twins.eq {text codeText : String} (h : Twins (fun _ _ _ => False) text codeText) :
    text = codeText := by
  obtain ⟨fragments, rfl, rfl, hlicensed⟩ := h
  generalize "" = before at hlicensed
  induction fragments generalizing before with
  | nil => rfl
  | cons fragment rest ih =>
    cases fragment with
    | code text =>
      rw [written_cons, erased_cons, ih _ hlicensed]
      rfl
    | typed text => exact absurd hlicensed.1 id

end Composition

/-! ## Two steps at once -/

section Coupling

variable {ε α β γ δ : Type} {R : α → β → Prop} {S : γ → δ → Prop}

/-- Both steps succeed with related results, or both fail alike. -/
def Coupled (R : α → β → Prop) (step : Except ε α) (step' : Except ε β) : Prop :=
  (∃ a b, step = .ok a ∧ step' = .ok b ∧ R a b) ∨
    ∃ error, step = .error error ∧ step' = .error error

theorem coupled_ok {a : α} {b : β} (h : R a b) :
    Coupled R (.ok a : Except ε α) (.ok b : Except ε β) :=
  .inl ⟨a, b, rfl, rfl, h⟩

theorem Coupled.bind {step : Except ε α} {step' : Except ε β} {f : α → Except ε γ}
    {g : β → Except ε δ} (h : Coupled R step step')
    (hfg : ∀ a b, R a b → Coupled S (f a) (g b)) : Coupled S (step >>= f) (step' >>= g) := by
  rcases h with ⟨a, b, rfl, rfl, hab⟩ | ⟨error, rfl, rfl⟩
  · exact hfg a b hab
  · exact .inr ⟨error, rfl, rfl⟩

theorem Coupled.map {step : Except ε α} {step' : Except ε β} {f : α → γ} {g : β → δ}
    (h : Coupled R step step') (hfg : ∀ a b, R a b → S (f a) (g b)) :
    Coupled S (do let a ← step; return f a) (do let b ← step'; return g b) :=
  h.bind fun a b hab => coupled_ok (hfg a b hab)

theorem Coupled.imp {R' : α → β → Prop} {step : Except ε α} {step' : Except ε β}
    (h : Coupled R step step') (himp : ∀ a b, R a b → R' a b) : Coupled R' step step' := by
  refine h.imp_left ?_
  rintro ⟨a, b, ha, hb, hab⟩
  exact ⟨a, b, ha, hb, himp a b hab⟩

theorem coupled_mapM {f : α → Except ε γ} {g : α → Except ε δ} {items : List α}
    (h : ∀ a ∈ items, Coupled S (f a) (g a)) :
    Coupled (fun cs ds => List.Forall₂ S cs ds ∧ cs.length = items.length) (items.mapM f)
      (items.mapM g) := by
  induction items with
  | nil => exact coupled_ok ⟨.nil, rfl⟩
  | cons a items ih =>
    rw [List.forall_mem_cons] at h
    rw [List.mapM_cons, List.mapM_cons]
    exact h.1.bind fun c d hcd => (ih h.2).map fun cs ds hrest =>
      ⟨.cons hcd hrest.1, congrArg (· + 1) hrest.2⟩

theorem Coupled.stopAt {step : Except RenderError α} {step' : Except RenderError β}
    (h : Coupled R step step') (count : Int) :
    Coupled R (Render.stopAt count step) (Render.stopAt count step') := by
  rcases h with ⟨a, b, rfl, rfl, hab⟩ | ⟨error, rfl, rfl⟩
  · exact coupled_ok hab
  · exact .inr ⟨_, rfl, rfl⟩

end Coupling

open Render

/-! ## Expressions -/

abbrev Dialect.typescript : Dialect :=
  .styled (.script .typescript)

abbrev Dialect.javascript : Dialect :=
  .styled (.script .javascript)

namespace Expr

mutual

/-- The parameters of all lambdas in an expression. -/
def lambdaParams : Expr → List String
  | .value _ | .str _ | .unknown _ => []
  | .list items => lambdaParamsAll items
  | .record _ fields => lambdaParamsFields fields
  | .field _ content => lambdaParams content
  | .cond test yes no => lambdaParams test ++ (lambdaParams yes ++ lambdaParams no)
  | .lambda params body => params ++ lambdaParams body
  | .construct _ _ fields => lambdaParamsFields fields
  | .call _ args => lambdaParamsAll args
  | .binary _ left right => lambdaParams left ++ lambdaParams right

def lambdaParamsAll : List Expr → List String
  | [] => []
  | expr :: rest => lambdaParams expr ++ lambdaParamsAll rest

def lambdaParamsFields : List (String × Expr) → List String
  | [] => []
  | (_, content) :: rest => lambdaParams content ++ lambdaParamsFields rest

end

theorem lambdaParamsAll_eq_flatMap (items : List Expr) :
    lambdaParamsAll items = items.flatMap lambdaParams := by
  induction items with
  | nil => rfl
  | cons e items ih => rw [lambdaParamsAll, ih, List.flatMap_cons]

theorem lambdaParamsFields_eq_flatMap (fields : List (String × Expr)) :
    lambdaParamsFields fields = (fields.map Prod.snd).flatMap lambdaParams := by
  induction fields with
  | nil => rfl
  | cons field fields ih => rw [lambdaParamsFields, ih, List.map_cons, List.flatMap_cons]

theorem mem_lambdaParams_of_mem_children {e part : Expr} (hpart : part ∈ e.children)
    {name : String} (h : name ∈ part.lambdaParams) : name ∈ e.lambdaParams := by
  cases e with
  | value _ | str _ | unknown _ => cases hpart
  | list items | call _ items =>
    rw [lambdaParams, lambdaParamsAll_eq_flatMap]
    exact List.mem_flatMap.mpr ⟨part, hpart, h⟩
  | record _ fields | construct _ _ fields =>
    rw [lambdaParams, lambdaParamsFields_eq_flatMap]
    exact List.mem_flatMap.mpr ⟨part, hpart, h⟩
  | field _ _ | cond _ _ _ | lambda _ _ | binary _ _ _ =>
    simp only [children, List.mem_cons, List.not_mem_nil, or_false] at hpart
    simp only [lambdaParams, List.mem_append]
    rcases hpart with rfl | rfl | rfl <;> simp only [h, true_or, or_true]

end Expr

section Expressions

variable {license : License}

/-- Texts that the style puts together, between an opening and a closing text. -/
theorem twins_enclosed (hlocal : license.Local) {texts codeTexts : List String}
    (h : List.Forall₂ (Twins license) texts codeTexts) (opening closing : String) :
    Twins license (opening ++ ", ".intercalate texts ++ closing)
      (opening ++ ", ".intercalate codeTexts ++ closing) :=
  (Twins.intercalate (hlocal ", ") h).around hlocal opening closing

theorem twins_list (hlocal : license.Local) {texts codeTexts : List String}
    (h : List.Forall₂ (Twins license) texts codeTexts) :
    Twins license (Style.list (.script .typescript) texts)
      (Style.list (.script .javascript) codeTexts) := by
  have henclosed := twins_enclosed hlocal h "[ " " ]"
  cases h with
  | nil => exact twins_code "[ ]"
  | cons _ _ => exact henclosed

theorem twins_record (hlocal : license.Local) {texts codeTexts : List String}
    (h : List.Forall₂ (Twins license) texts codeTexts) :
    Twins license (Style.record (.script .typescript) texts)
      (Style.record (.script .javascript) codeTexts) := by
  have henclosed := twins_enclosed hlocal h "\x7b " " \x7d"
  cases h with
  | nil => exact twins_code "\x7b \x7d"
  | cons _ _ => exact henclosed

theorem twins_fields (hlocal : license.Local) (fields : List (String × Expr))
    {texts codeTexts : List String} (h : List.Forall₂ (Twins license) texts codeTexts) :
    List.Forall₂ (Twins license) (Style.fields (.script .typescript) fields texts)
      (Style.fields (.script .javascript) fields codeTexts) := by
  induction h generalizing fields with
  | nil =>
    unfold Style.fields
    rw [List.zipWith_nil_right, List.zipWith_nil_right]
    exact .nil
  | cons htext _ ih =>
    cases fields with
    | nil => exact .nil
    | cons field fields =>
      exact .cons ((twins_code (field.1 ++ ": ")).append hlocal htext) (ih fields)

theorem twins_conditional (hlocal : license.Local) {test test' yes yes' no no' : String}
    (htest : Twins license test test') (hyes : Twins license yes yes') (hno : Twins license no no') :
    Twins license (Style.conditional (.script .typescript) test yes no)
      (Style.conditional (.script .javascript) test' yes' no') := by
  have hhead := (htest.around hlocal "(" " ? ").append hlocal hyes
  exact ((hhead.code hlocal " : ").append hlocal hno).code hlocal ")"

theorem twins_branches (hlocal : license.Local) (indent : String)
    {test test' yes yes' no no' : String} (htest : Twins license test test')
    (hyes : Twins license yes yes') (hno : Twins license no no') :
    Coupled (Twins license) (Style.branches (.script .typescript) indent test yes no)
      (Style.branches (.script .javascript) indent test' yes' no') := by
  have hfirst := (htest.around hlocal (indent ++ "if (") ") \x7b\n").append hlocal hyes
  have hsecond := (((hfirst.code hlocal "\n").code hlocal indent).code hlocal
    "\x7d else \x7b\n").append hlocal hno
  exact coupled_ok (((hsecond.code hlocal "\n").code hlocal indent).code hlocal "\x7d")

/-! ### Plans -/

/-- Two plans for the same parts, which make twins of twins. -/
structure Plan.Twins (license : License) (plan plan' : Plan) : Prop where
  inline : plan.inline = plan'.inline
  below : plan.below = plan'.below
  assemble : ∀ (indent : String) {inline inline' below below' : List String},
    List.Forall₂ (Polyglot.Twins license) inline inline' →
    inline.length = plan.inline.length →
    List.Forall₂ (Polyglot.Twins license) below below' →
    below.length = plan.below.length →
    Coupled (Polyglot.Twins license) (plan.assemble indent inline below)
      (plan'.assemble indent inline' below')

/-- The parameters of a lambda, where each may be followed by its type. -/
theorem twins_lambdaParams (hlocal : license.Local) {params : List String}
    (h : ∀ name ∈ params, license name ": any" "") :
    ∃ text codeText, Script.lambdaParams .typescript params = .ok text ∧
      Script.lambdaParams .javascript params = .ok codeText ∧ Twins license text codeText := by
  have hparams : ∃ texts codeTexts, params.mapM (Script.lambdaParam .typescript) = .ok texts ∧
      params.mapM (Script.lambdaParam .javascript) = .ok codeTexts ∧
      List.Forall₂ (Twins license) texts codeTexts := by
    refine exists_ok_mapM₂ fun name hname => ⟨_, _, rfl, rfl, ?_⟩
    refine (twins_code name).snoc (h name hname) fun before other after hother => ?_
    have hback := (hlocal "" before other after hother).2 ": any"
    rwa [String.append_empty] at hback
  obtain ⟨texts, codeTexts, htexts, hcodeTexts, hall⟩ := hparams
  refine ⟨", ".intercalate texts, ", ".intercalate codeTexts, ?_, ?_,
    Twins.intercalate (hlocal ", ") hall⟩
  · rw [Script.lambdaParams, htexts]
    rfl
  · rw [Script.lambdaParams, hcodeTexts]
    rfl

theorem Plan.twins_line {parts : List Expr} {f g : List String → String}
    (h : ∀ {texts codeTexts}, List.Forall₂ (Polyglot.Twins license) texts codeTexts →
      texts.length = parts.length → Polyglot.Twins license (f texts) (g codeTexts)) :
    Plan.Twins license (.line parts f) (.line parts g) :=
  ⟨rfl, rfl, fun _ _ _ _ _ hinline hlength _ _ => coupled_ok (h hinline hlength)⟩

/-- The two scripts put a text into its slot alike. -/
theorem placed_coupled (hlocal : license.Local) {plan plan' : Except RenderError Plan}
    (h : Coupled (Plan.Twins license) plan plan') (slot : Slot) :
    Coupled (Plan.Twins license) (Dialect.typescript.placed slot plan)
      (Dialect.javascript.placed slot plan') := by
  cases slot with
  | inline => exact h
  | ownLines =>
    refine h.map fun plan plan' hplan => ⟨hplan.inline, hplan.below, ?_⟩
    intro indent inline inline' below below' hin hlength hbelow hlength'
    refine (hplan.assemble indent hin hlength hbelow hlength').map fun a b hab => ?_
    exact hab.around hlocal (indent ++ "return ") ";"

theorem cond_coupled (hlocal : license.Local) {test yes no : Expr} (slot : Slot) :
    Coupled (Plan.Twins license) (Dialect.typescript.plan slot (.cond test yes no))
      (Dialect.javascript.plan slot (.cond test yes no)) := by
  cases slot with
  | inline =>
    refine coupled_ok (Plan.twins_line fun htexts hlength => ?_)
    obtain ⟨_, _, _, rfl⟩ := List.length_eq_three.mp hlength
    rcases htexts with _ | ⟨htest, _ | ⟨hyes, _ | ⟨hno, ⟨⟩⟩⟩⟩
    exact twins_conditional hlocal htest hyes hno
  | ownLines =>
    refine coupled_ok ⟨rfl, rfl, ?_⟩
    intro indent inline inline' below below' hin hlength hbelow hlength'
    obtain ⟨_, rfl⟩ := List.length_eq_one_iff.mp hlength
    obtain ⟨_, _, rfl⟩ := List.length_eq_two.mp hlength'
    rcases hin with _ | ⟨htest, ⟨⟩⟩
    rcases hbelow with _ | ⟨hyes, _ | ⟨hno, ⟨⟩⟩⟩
    exact twins_branches hlocal indent htest hyes hno

theorem lambda_coupled (hlocal : license.Local) {params : List String} {body : Expr}
    (hparams : ∀ name ∈ params, license name ": any" "") (slot : Slot) :
    Coupled (Plan.Twins license) (Dialect.typescript.plan slot (.lambda params body))
      (Dialect.javascript.plan slot (.lambda params body)) := by
  refine placed_coupled hlocal ?_ slot
  refine Coupled.map (.inl (twins_lambdaParams hlocal hparams)) fun names names' hnames =>
    ⟨rfl, rfl, ?_⟩
  intro indent inline inline' below below' _ _ hbelow hlength
  obtain ⟨_, rfl⟩ := List.length_eq_one_iff.mp hlength
  rcases hbelow with _ | ⟨hbody, ⟨⟩⟩
  have hhead := (hnames.around hlocal "function(" ") \x7b\n").append hlocal hbody
  exact coupled_ok (((hhead.code hlocal "\n").code hlocal indent).code hlocal "\x7d")

theorem binary_coupled (hlocal : license.Local) {op : BinaryOp} {left right : Expr} (slot : Slot) :
    Coupled (Plan.Twins license) (Dialect.typescript.plan slot (.binary op left right))
      (Dialect.javascript.plan slot (.binary op left right)) := by
  refine placed_coupled hlocal (coupled_ok (Plan.twins_line fun htexts hlength => ?_)) slot
  obtain ⟨_, _, rfl⟩ := List.length_eq_two.mp hlength
  rcases htexts with _ | ⟨hleft, _ | ⟨hright, ⟨⟩⟩⟩
  have hfirst := hleft.parenthesized hlocal (needsParens .left left.precedence op.precedence)
  have hsecond := hright.parenthesized hlocal (needsParens .right right.precedence op.precedence)
  have hsign : Dialect.typescript.operator op = Dialect.javascript.operator op := by
    cases op <;> rfl
  dsimp only
  rw [hsign]
  exact (((hfirst.code hlocal " ").code hlocal _).code hlocal " ").append hlocal hsecond

/-- Both scripts have plans for the same parts, which differ in the types of parameters. -/
theorem plan_coupled (hlocal : license.Local) {e : Expr}
    (h : ∀ name ∈ e.lambdaParams, license name ": any" "") (slot : Slot) :
    Coupled (Plan.Twins license) (Dialect.typescript.plan slot e)
      (Dialect.javascript.plan slot e) := by
  cases e with
  | value body =>
    exact placed_coupled hlocal (coupled_ok (Plan.twins_line fun _ _ => twins_code body)) slot
  | str body =>
    exact placed_coupled hlocal (coupled_ok (Plan.twins_line fun _ _ => twins_code _)) slot
  | list items =>
    refine placed_coupled hlocal (coupled_ok (Plan.twins_line fun htexts _ => ?_)) slot
    exact twins_list hlocal htexts
  | record base fields =>
    refine placed_coupled hlocal (coupled_ok (Plan.twins_line fun htexts _ => ?_)) slot
    exact twins_record hlocal (twins_fields hlocal fields htexts)
  | field name content =>
    refine placed_coupled hlocal (coupled_ok (Plan.twins_line fun htexts hlength => ?_)) slot
    obtain ⟨_, rfl⟩ := List.length_eq_one_iff.mp hlength
    rcases htexts with _ | ⟨htext, ⟨⟩⟩
    exact (twins_code (name ++ ": ")).append hlocal htext
  | cond test yes no => exact cond_coupled hlocal slot
  | lambda params body =>
    rw [Expr.lambdaParams, List.forall_mem_append] at h
    exact lambda_coupled hlocal h.1 slot
  | construct tag base fields =>
    refine placed_coupled hlocal (coupled_ok (Plan.twins_line fun htexts _ => ?_)) slot
    exact (twins_record hlocal (twins_fields hlocal fields htexts)).around hlocal (tag ++ "(") ")"
  | call name args =>
    refine placed_coupled hlocal (coupled_ok (Plan.twins_line fun htexts _ => ?_)) slot
    exact twins_enclosed hlocal htexts (name ++ "(") ")"
  | binary op left right => exact binary_coupled hlocal slot
  | unknown kind => exact .inr ⟨_, rfl, rfl⟩

/-- The runs of two such plans. -/
theorem run_coupled {plan plan' : Except RenderError Plan}
    (hplan : Coupled (Plan.Twins license) plan plan')
    (hparts : IfOk plan fun plan => ∀ part ∈ plan.inline ++ plan.below, ∀ slot count,
      Coupled (Twins license) ((Dialect.typescript.render slot part).outcome count)
        ((Dialect.javascript.render slot part).outcome count)) (count : Int) :
    Coupled (Twins license) ((Dialect.typescript.run plan).outcome count)
      ((Dialect.javascript.run plan').outcome count) := by
  rcases hplan with ⟨plan, plan', rfl, rfl, htwins⟩ | ⟨error, rfl, rfl⟩
  · obtain ⟨hinline, hbelow⟩ := List.forall_mem_append.mp (hparts plan rfl)
    rw [Dialect.outcome_run, Dialect.outcome_run, ← htwins.inline, ← htwins.below]
    refine (coupled_mapM fun part hpart => hinline part hpart .inline count).bind
      fun inline inline' hin => ?_
    refine (coupled_mapM fun part hpart => hbelow part hpart .ownLines (count + 1)).bind
      fun below below' hbe => ?_
    exact (htwins.assemble _ hin.1 hin.2 hbe.1 hbe.2).stopAt count
  · exact .inr ⟨_, rfl, rfl⟩

/-- Both scripts render an expression as twins, or fail alike. -/
theorem render_coupled (hlocal : license.Local) {e : Expr}
    (h : ∀ name ∈ e.lambdaParams, license name ": any" "") (slot : Slot) (count : Int) :
    Coupled (Twins license) ((Dialect.typescript.render slot e).outcome count)
      ((Dialect.javascript.render slot e).outcome count) := by
  induction e using Expr.induction_children generalizing slot count with
  | h e ih =>
  rw [Dialect.render_run, Dialect.render_run]
  refine run_coupled (plan_coupled hlocal h slot) (fun plan hplan part hpart => ?_) count
  rw [Dialect.plan_parts slot e plan hplan] at hpart
  exact ih part hpart fun name hname => h name (Expr.mem_lambdaParams_of_mem_children hpart hname)

/-- An expression in which no lambda has a parameter is rendered the same by both scripts. -/
theorem render_eq {e : Expr} (h : e.lambdaParams = []) (slot : Slot) (count : Int) :
    Dialect.typescript.render slot e count = Dialect.javascript.render slot e count := by
  have hlocal : License.Local fun _ _ _ => False := fun _ _ _ _ hnone => absurd hnone id
  have hparams : ∀ name ∈ e.lambdaParams, False := by
    rw [h]
    exact fun name hname => absurd hname List.not_mem_nil
  refine (Dialect.render_balanced e slot).eq_of_outcome_eq (Dialect.render_balanced e slot) ?_
  rcases render_coupled hlocal hparams slot count with ⟨a, b, ha, hb, hab⟩ | ⟨stop, hstop, hstop'⟩
  · rw [ha, hb, hab.eq]
  · rw [hstop, hstop']

end Expressions

end Polyglot
