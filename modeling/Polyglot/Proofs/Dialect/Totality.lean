import Polyglot.Proofs.Decl.WellFormed
import Polyglot.Proofs.Dialect.Plan
import Polyglot.Proofs.Expr.Surface

/-!
# Rendering succeeds

A dialect in which every decision is made writes every well-formed declaration, from any indent
counter on, and leaves the counter as it was. In an expression, only a node of an unknown kind can
stop it. The dialects put an expression together in ways of their own, but all of them render all
its parts, from left to right, so it is the first such node that stops them.

Results:
1. `Script.typeText_ok`: a well-formed type has a text in the script that has types.
2. `plan_total`: a known node has a plan, and the plan makes a text of any texts of its parts.
3. `render_meets`: what stops the rendering of an expression, in either slot.
4. `render_succeeds`: nothing stops that of a well-formed expression.
5. `decl_succeeds`, `emit_ok`: well-formed declarations are rendered.
-/

namespace Polyglot

namespace Render

variable {α β : Type} {found found' : Option String}

/-- The rendering succeeds whatever the indent counter is, and leaves it alone. -/
def Succeeds (part : Render α) : Prop :=
  ∀ count, ∃ value, part count = .ok value count

/-- The step stops at a node of the kind `found`. Without such a node it succeeds. -/
def Meets (found : Option String) (step : Except Stop α) : Prop :=
  match found with
  | none => ∃ value, step = .ok value
  | some kind => ∃ after, step = .error ⟨.unknownExpr kind, after⟩

/-- What stops the first step stops the whole. -/
theorem Meets.bind {step : Except Stop α} {f : α → Except Stop β} (h : Meets found step)
    (hf : ∀ a, Meets found' (f a)) : Meets (found.or found') (step >>= f) := by
  cases found with
  | some kind =>
    obtain ⟨after, rfl⟩ := h
    exact ⟨after, rfl⟩
  | none =>
    obtain ⟨value, rfl⟩ := h
    exact hf value

theorem meets_mapM {items : List α} {found : α → Option String} {f : α → Except Stop β}
    (h : ∀ a ∈ items, Meets (found a) (f a)) : Meets (items.findSome? found) (items.mapM f) := by
  induction items with
  | nil => exact ⟨[], rfl⟩
  | cons a items ih =>
    rw [List.forall_mem_cons] at h
    rw [List.findSome?_cons_or, List.mapM_cons, ← Option.or_none (o := items.findSome? found)]
    exact h.1.bind fun b => (ih h.2).bind fun bs => ⟨b :: bs, rfl⟩

end Render

open Render

/-! ## Decided dialects -/

/-- Whether the style leaves no decision open. -/
def Style.decided : Style → Bool
  | .script member => member ≠ .bare
  | .surface member => member ≠ .bare

theorem Script.eq_of_ne_bare {script : Script} (h : script ≠ .bare) :
    script = .javascript ∨ script = .typescript := by
  cases script with
  | javascript => exact .inl rfl
  | typescript => exact .inr rfl
  | bare => exact absurd rfl h

theorem Surface.eq_of_ne_bare {surface : Surface} (h : surface ≠ .bare) :
    surface = .derw ∨ surface = .elm := by
  cases surface with
  | derw => exact .inl rfl
  | elm => exact .inr rfl
  | bare => exact absurd rfl h

namespace Script

variable {script : Script}

/-! ### Types -/

mutual

/-- A well-formed type has a text. -/
theorem typeText_ok : ∀ ty : Ty, ty.wellFormed = true → ∃ text, typeText ty = .ok text
  | .named name args, h => by
    obtain ⟨texts, htexts, _⟩ := typeTexts_ok args h
    exact exists_ok_map ⟨texts, htexts⟩ (appliedType name args)
  | .var name, _ => ⟨name, rfl⟩
  | .func parts, h => by
    rw [Ty.wellFormed, Bool.and_eq_true, decide_eq_true_eq] at h
    obtain ⟨texts, htexts, hlength⟩ := typeTexts_ok parts h.2
    -- two parts leave a last text, which is the result
    have hne : texts ≠ [] := by
      rw [← List.length_pos_iff, hlength]
      exact Nat.lt_of_lt_of_le Nat.two_pos h.1
    rw [typeText, htexts]
    show ∃ text, functionType texts = .ok text
    rw [functionType, List.getLast?_eq_some_getLast hne]
    exact ⟨_, rfl⟩

theorem typeTexts_ok : ∀ types : List Ty, Ty.wellFormedAll types = true →
    ∃ texts, typeTexts types = .ok texts ∧ texts.length = types.length
  | [], _ => ⟨[], rfl, rfl⟩
  | ty :: rest, h => by
    rw [Ty.wellFormedAll, Bool.and_eq_true] at h
    obtain ⟨text, htext⟩ := typeText_ok ty h.1
    obtain ⟨texts, htexts, hlength⟩ := typeTexts_ok rest h.2
    refine ⟨text :: texts, ?_, congrArg (· + 1) hlength⟩
    rw [typeTexts, htext, htexts]
    rfl

end

theorem ascription_ok (hscript : script ≠ .bare) {ty : Ty} (h : ty.wellFormed = true) :
    ∃ text, script.ascription ty = .ok text := by
  rcases eq_of_ne_bare hscript with rfl | rfl
  · exact ⟨_, rfl⟩
  · exact exists_ok_map (typeText_ok ty h) (": " ++ ·)

theorem typeParams_ok (hscript : script ≠ .bare) (names : List String) :
    ∃ text, script.typeParams names = .ok text := by
  rcases eq_of_ne_bare hscript with rfl | rfl
  · exact ⟨_, rfl⟩
  · exact ⟨_, rfl⟩

theorem lambdaParams_ok (hscript : script ≠ .bare) (params : List String) :
    ∃ text, script.lambdaParams params = .ok text := by
  refine exists_ok_map (exists_ok_mapM fun name _ => ?_) (", ".intercalate ·)
  rcases eq_of_ne_bare hscript with rfl | rfl
  · exact ⟨_, rfl⟩
  · exact ⟨_, rfl⟩

end Script

/-! ## Expressions -/

namespace Expr

mutual

/-- The kind of the first unknown node. -/
def firstUnknown : Expr → Option String
  | .value _ | .str _ => none
  | .unknown kind => some kind
  | .list items => firstUnknownAll items
  | .record _ fields => firstUnknownFields fields
  | .field _ content => firstUnknown content
  | .cond test yes no => (firstUnknown test).or ((firstUnknown yes).or (firstUnknown no))
  | .lambda _ body => firstUnknown body
  | .construct _ _ fields => firstUnknownFields fields
  | .call _ args => firstUnknownAll args
  | .binary _ left right => (firstUnknown left).or (firstUnknown right)

def firstUnknownAll : List Expr → Option String
  | [] => none
  | expr :: rest => (firstUnknown expr).or (firstUnknownAll rest)

def firstUnknownFields : List (String × Expr) → Option String
  | [] => none
  | (_, content) :: rest => (firstUnknown content).or (firstUnknownFields rest)

end

theorem firstUnknownAll_eq (items : List Expr) :
    firstUnknownAll items = items.findSome? firstUnknown := by
  induction items with
  | nil => rfl
  | cons e items ih => rw [firstUnknownAll, ih, List.findSome?_cons_or]

theorem firstUnknownFields_eq (fields : List (String × Expr)) :
    firstUnknownFields fields = (fields.map Prod.snd).findSome? firstUnknown := by
  induction fields with
  | nil => rfl
  | cons field fields ih => rw [firstUnknownFields, ih, List.map_cons, List.findSome?_cons_or]

/-- Any other node is searched part by part. -/
theorem firstUnknown_eq {e : Expr} (h : ∀ kind, e ≠ .unknown kind) :
    e.firstUnknown = e.children.findSome? firstUnknown := by
  cases e with
  | value _ | str _ => rfl
  | list items => exact firstUnknownAll_eq items
  | record _ fields => exact firstUnknownFields_eq fields
  | construct _ _ fields => exact firstUnknownFields_eq fields
  | call _ args => exact firstUnknownAll_eq args
  | field _ _ | cond _ _ _ | lambda _ _ | binary _ _ _ =>
    simp only [firstUnknown, children, List.findSome?_cons_or, List.findSome?_nil, Option.or_none]
  | unknown kind => exact absurd rfl (h kind)

theorem wellFormed_of_mem_children {e part : Expr} (h : e.wellFormed = true)
    (hpart : part ∈ e.children) : part.wellFormed = true := by
  cases e with
  | value _ | str _ => cases hpart
  | field _ _ | unknown _ => cases h
  | list items => exact wellFormedAll_iff.mp h part hpart
  | record _ fields =>
    rw [wellFormed, Bool.and_eq_true] at h
    obtain ⟨field, hfield, rfl⟩ := List.mem_map.mp hpart
    exact wellFormedFields_iff.mp h.2 field hfield
  | construct _ _ fields =>
    simp only [wellFormed, Bool.and_eq_true] at h
    obtain ⟨field, hfield, rfl⟩ := List.mem_map.mp hpart
    exact wellFormedFields_iff.mp h.2.2 field hfield
  | call _ args =>
    simp only [wellFormed, Bool.and_eq_true] at h
    exact wellFormedAll_iff.mp h.2.2 part hpart
  | cond _ _ _ | lambda _ _ | binary _ _ _ =>
    simp only [wellFormed, Bool.and_eq_true] at h
    simp only [children, List.mem_cons, List.not_mem_nil, or_false] at hpart
    rcases hpart with rfl | rfl | rfl <;> simp only [h]

/-- No node of a well-formed expression is of an unknown kind. -/
theorem firstUnknown_eq_none (e : Expr) (h : e.wellFormed = true) : e.firstUnknown = none := by
  induction e using induction_children with
  | h e ih =>
  have hknown : ∀ kind, e ≠ .unknown kind := by
    rintro kind rfl
    cases h
  rw [firstUnknown_eq hknown, List.findSome?_eq_none_iff]
  exact fun part hpart => ih part hpart (wellFormed_of_mem_children h hpart)

end Expr

section Expressions

variable {style : Style} {found : Option String}

theorem branches_ok (hstyle : style.decided = true) (indent test yes no : String) :
    ∃ text, style.branches indent test yes no = .ok text := by
  cases style with
  | script _ => exact ⟨_, rfl⟩
  | surface member =>
    rcases Surface.eq_of_ne_bare (of_decide_eq_true hstyle) with rfl | rfl
    · exact ⟨_, rfl⟩
    · exact ⟨_, rfl⟩

/-- What is made of the texts of the parts cannot fail. -/
def Plan.Total (plan : Plan) : Prop :=
  ∀ indent inline below, ∃ text, plan.assemble indent inline below = .ok text

theorem Plan.line_total (parts : List Expr) (f : List String → String) : (line parts f).Total :=
  fun _ inline _ => ⟨f inline, rfl⟩

theorem placed_total {plan : Except RenderError Plan} (h : ∃ found, plan = .ok found ∧ found.Total)
    (slot : Slot) : ∃ found, (Dialect.styled style).placed slot plan = .ok found ∧ found.Total := by
  obtain ⟨found, rfl, htotal⟩ := h
  cases slot with
  | inline => exact ⟨found, rfl, htotal⟩
  | ownLines => exact ⟨_, rfl, fun indent inline below => exists_ok_map (htotal ..) _⟩

/-- A dialect in which every decision is made has a plan for every node that it knows. -/
theorem plan_total (hstyle : style.decided = true) {e : Expr} (h : ∀ kind, e ≠ .unknown kind)
    (slot : Slot) : ∃ plan, (Dialect.styled style).plan slot e = .ok plan ∧ plan.Total := by
  cases e with
  | value _ | str _ | list _ | record _ _ | field _ _ | construct _ _ _ | call _ _ | binary _ _ _ =>
    exact placed_total ⟨_, rfl, Plan.line_total _ _⟩ slot
  | cond test yes no =>
    cases slot with
    | inline => exact ⟨_, rfl, Plan.line_total _ _⟩
    | ownLines =>
      refine ⟨_, rfl, fun indent inline below => ?_⟩
      dsimp only
      split
      · exact branches_ok hstyle _ _ _ _
      · exact ⟨_, rfl⟩
  | lambda params body =>
    cases style with
    | script script =>
      obtain ⟨names, hnames⟩ := Script.lambdaParams_ok (of_decide_eq_true hstyle) params
      refine placed_total ?_ slot
      rw [hnames]
      refine ⟨_, rfl, fun indent inline below => ?_⟩
      dsimp only
      split <;> exact ⟨_, rfl⟩
    | surface member =>
      cases slot with
      | inline => exact ⟨_, rfl, Plan.line_total _ _⟩
      | ownLines =>
        refine ⟨_, rfl, fun indent inline below => ?_⟩
        dsimp only
        split <;> exact ⟨_, rfl⟩
  | unknown kind => exact absurd rfl (h kind)

/-- The run of a plan stops at the first unknown node of its parts. -/
theorem run_meets {plan : Plan} (htotal : plan.Total)
    (h : ∀ part ∈ plan.inline ++ plan.below, ∀ slot count,
      Meets part.firstUnknown (((Dialect.styled style).render slot part).outcome count))
    (count : Int) :
    Meets ((plan.inline ++ plan.below).findSome? Expr.firstUnknown)
      (((Dialect.styled style).run (.ok plan)).outcome count) := by
  rw [List.forall_mem_append] at h
  rw [Dialect.outcome_run, List.findSome?_append,
    ← Option.or_none (o := plan.below.findSome? Expr.firstUnknown)]
  refine (meets_mapM fun part hpart => h.1 part hpart .inline count).bind fun inline => ?_
  refine (meets_mapM fun part hpart => h.2 part hpart .ownLines (count + 1)).bind fun below => ?_
  obtain ⟨text, htext⟩ := htotal (indentText count) inline below
  exact ⟨text, by rw [htext]; rfl⟩

/-- Every dialect stops at the first unknown node, in either slot. -/
theorem render_meets (hstyle : style.decided = true) (e : Expr) (slot : Slot) (count : Int) :
    Meets e.firstUnknown (((Dialect.styled style).render slot e).outcome count) := by
  induction e using Expr.induction_children generalizing slot count with
  | h e ih =>
  rw [Dialect.render_run]
  by_cases hunknown : ∃ kind, e = .unknown kind
  · obtain ⟨kind, rfl⟩ := hunknown
    exact ⟨count, rfl⟩
  · have hknown : ∀ kind, e ≠ .unknown kind := fun kind heq => hunknown ⟨kind, heq⟩
    obtain ⟨plan, hplan, htotal⟩ := plan_total hstyle hknown slot
    have hparts := Dialect.plan_parts slot e plan hplan
    rw [hplan, Expr.firstUnknown_eq hknown, ← hparts]
    refine run_meets htotal (fun part hpart => ?_) count
    rw [hparts] at hpart
    exact ih part hpart

/-- A well-formed expression is rendered in either slot. -/
theorem render_succeeds (hstyle : style.decided = true) (e : Expr) (slot : Slot)
    (h : e.wellFormed = true) : ((Dialect.styled style).render slot e).Succeeds := by
  intro count
  have hmeets := render_meets hstyle e slot count
  rw [Expr.firstUnknown_eq_none e h] at hmeets
  obtain ⟨text, htext⟩ := hmeets
  exact ⟨text, (Dialect.render_balanced e slot).eq_ok htext⟩

theorem run_succeeds (hstyle : style.decided = true) {plan : Plan} (htotal : plan.Total)
    (h : ∀ part ∈ plan.inline ++ plan.below, part.wellFormed = true) :
    ((Dialect.styled style).run (.ok plan)).Succeeds := by
  intro count
  have hmeets := run_meets htotal (fun part _ => render_meets hstyle part) count
  rw [List.findSome?_eq_none_iff.mpr fun part hpart => Expr.firstUnknown_eq_none part (h part hpart)]
    at hmeets
  obtain ⟨text, htext⟩ := hmeets
  exact ⟨text, (Dialect.run_balanced _).eq_ok htext⟩

end Expressions

/-! ## Declarations -/

namespace Script

variable {script : Script}

theorem fieldTypes_ok {tag : Tag} (h : tag.wellFormed = true) :
    ∃ texts, fieldTypes tag = .ok texts := by
  refine exists_ok_mapM fun field hfield => ?_
  exact exists_ok_map (typeText_ok field.type (List.all_eq_true.mp h field hfield)) _

theorem tagAlias_ok (hscript : script ≠ .bare) {declared : Union} (hnamed : declared.Named)
    {tag : Tag} (h : tag.wellFormed = true) :
    ∃ alias?, script.tagAlias declared tag = .ok alias? := by
  rcases eq_of_ne_bare hscript with rfl | rfl
  · exact ⟨_, rfl⟩
  · exact exists_ok_bind ⟨_, tagType_eq_ok hnamed tag⟩ fun name => exists_ok_map (fieldTypes_ok h) _

theorem factory_ok (hscript : script ≠ .bare) {declared : Union} (hnamed : declared.Named)
    {tag : Tag} (h : tag.wellFormed = true) : ∃ text, script.factory declared tag = .ok text := by
  have hparams : ∃ text, script.factoryParams tag = .ok text := by
    rcases eq_of_ne_bare hscript with rfl | rfl
    · exact ⟨_, rfl⟩
    · exact exists_ok_map (fieldTypes_ok h) _
  have hresult : ∃ text, script.factoryReturn declared tag = .ok text := by
    rcases eq_of_ne_bare hscript with rfl | rfl
    · exact ⟨_, rfl⟩
    · exact exists_ok_map ⟨_, tagType_eq_ok hnamed tag⟩ _
  refine exists_ok_bind ⟨_, tagParams_eq_ok hnamed tag⟩ fun names => ?_
  refine exists_ok_bind (typeParams_ok hscript names) fun generics => ?_
  exact exists_ok_bind hparams fun params => exists_ok_map hresult _

theorem union_ok (hscript : script ≠ .bare) {declared : Union} (h : declared.wellFormed = true) :
    ∃ text, script.union declared = .ok text := by
  have hnamed := declared.named_of_wellFormed h
  simp only [Union.wellFormed, Bool.and_eq_true] at h
  obtain ⟨_, hparams, _, htags⟩ := h
  have hparts : ∃ parts, declared.tags.mapM (script.tagParts declared) = .ok parts := by
    refine exists_ok_mapM fun tag htag => ?_
    have hwell := List.all_eq_true.mp htags tag htag
    refine exists_ok_bind (tagAlias_ok hscript hnamed hwell) fun alias? => ?_
    exact exists_ok_map (factory_ok hscript hnamed hwell) _
  have halias : ∃ alias?, script.unionAlias declared = .ok alias? := by
    rcases eq_of_ne_bare hscript with rfl | rfl
    · exact ⟨_, rfl⟩
    · have hmembers : ∃ members, declared.tags.mapM (tagType declared) = .ok members :=
        exists_ok_mapM fun tag _ => ⟨_, tagType_eq_ok hnamed tag⟩
      refine exists_ok_bind hmembers fun members => ?_
      exact exists_ok_map (typeText_ok (.named _ declared.params) hparams) _
  exact exists_ok_bind hparts fun parts => exists_ok_map halias _

theorem header_ok (hscript : script ≠ .bare) {declared : Equation}
    (h : declared.wellFormed = true) : ∃ text, script.header declared = .ok text := by
  simp only [Equation.wellFormed, Bool.and_eq_true] at h
  obtain ⟨hparams, hresult, _⟩ := h
  refine exists_ok_bind (typeParams_ok hscript _) fun generics => ?_
  have htexts : ∃ text, script.params declared.params = .ok text := by
    refine exists_ok_map (exists_ok_mapM fun param hparam => ?_) _
    exact exists_ok_map (ascription_ok hscript (List.all_eq_true.mp hparams param hparam)) _
  exact exists_ok_bind htexts fun params => exists_ok_map (ascription_ok hscript hresult) _

end Script

theorem Surface.union_ok {surface : Surface} (hsurface : surface ≠ .bare) {declared : Union}
    (h : declared.wellFormed = true) : ∃ text, surface.union declared = .ok text := by
  simp only [Union.wellFormed, Bool.and_eq_true] at h
  obtain ⟨_, _, hne, _⟩ := h
  cases htags : declared.tags with
  | nil =>
    rw [htags] at hne
    cases hne
  | cons first rest =>
    have hhead : ∃ head, surface.unionHead declared first = .ok head := by
      rcases Surface.eq_of_ne_bare hsurface with rfl | rfl
      · exact ⟨_, rfl⟩
      · exact ⟨_, rfl⟩
    rw [Surface.union, htags]
    exact exists_ok_map hhead _

namespace Dialect

variable {style : Style}

theorem equationPlan_total (signature head : String) (body : Expr) :
    (equationPlan signature head body).Total := by
  intro indent inline below
  unfold equationPlan
  dsimp only
  split <;> exact ⟨_, rfl⟩

theorem union_succeeds (hstyle : style.decided = true) {declared : Union}
    (h : declared.wellFormed = true) :
    ((Dialect.styled style).decl (.union declared)).Succeeds := by
  have hlift : ∀ {step : Except RenderError String}, (∃ text, step = .ok text) →
      (liftM step : Render String).Succeeds := by
    rintro _ ⟨text, htext⟩
    exact fun count => ⟨text, lift_eq_ok htext count⟩
  cases style with
  | script script => exact hlift (Script.union_ok (of_decide_eq_true hstyle) h)
  | surface member => exact hlift (Surface.union_ok (of_decide_eq_true hstyle) h)

theorem function_succeeds (hstyle : style.decided = true) {declared : Equation}
    (h : declared.wellFormed = true) :
    ((Dialect.styled style).decl (.function declared)).Succeeds := by
  have hbody : ∀ part ∈ [declared.body], part.wellFormed = true := by
    simp only [Equation.wellFormed, Bool.and_eq_true] at h
    exact List.forall_mem_singleton.mpr h.2.2
  rw [decl_run]
  cases style with
  | script script =>
    obtain ⟨header, hheader⟩ := Script.header_ok (of_decide_eq_true hstyle) h
    rw [declPlan_function hheader]
    refine run_succeeds hstyle (fun indent inline below => ?_) hbody
    dsimp only
    split <;> exact ⟨_, rfl⟩
  | surface _ => exact run_succeeds hstyle (equationPlan_total _ _ _) hbody

theorem const_succeeds (hstyle : style.decided = true) {declared : Equation}
    (h : declared.wellFormed = true) :
    ((Dialect.styled style).decl (.const declared)).Succeeds := by
  simp only [Equation.wellFormed, Bool.and_eq_true] at h
  obtain ⟨_, hresult, hbody⟩ := h
  rw [decl_run]
  cases style with
  | script script =>
    refine run_succeeds hstyle (fun indent inline below => ?_) (List.forall_mem_singleton.mpr hbody)
    dsimp only
    split
    · exact exists_ok_map (Script.ascription_ok (of_decide_eq_true hstyle) hresult) _
    · exact ⟨_, rfl⟩
  | surface _ =>
    exact run_succeeds hstyle (equationPlan_total _ _ _) (List.forall_mem_singleton.mpr hbody)

/-- A well-formed declaration is rendered. -/
theorem decl_succeeds (hstyle : style.decided = true) {decl : Decl}
    (h : decl.wellFormed = true) : ((Dialect.styled style).decl decl).Succeeds := by
  cases decl with
  | union declared => exact union_succeeds hstyle h
  | function declared =>
    rw [Decl.wellFormed, Bool.and_eq_true] at h
    exact function_succeeds hstyle h.2
  | const declared =>
    rw [Decl.wellFormed, Bool.and_eq_true] at h
    exact const_succeeds hstyle h.2
  | unknown node => cases h

-- a union without tags is what the surface dialects cannot write
example : Dialect.derw.decl (.union ⟨"Empty", [], []⟩) 0 = .error .noTag 0 := rfl

theorem decls_succeeds (hstyle : style.decided = true) {body : List Decl}
    (h : ∀ decl ∈ body, decl.wellFormed = true) : ((Dialect.styled style).decls body).Succeeds := by
  intro count
  have htexts : ∃ texts, ((Dialect.styled style).decls body).outcome count = .ok texts := by
    rw [outcome_decls]
    refine exists_ok_mapM fun decl hdecl => ?_
    obtain ⟨text, htext⟩ := decl_succeeds hstyle (h decl hdecl) count
    exact ⟨text, outcome_of_ok htext⟩
  obtain ⟨texts, htexts⟩ := htexts
  exact ⟨texts, (decls_balanced body).eq_ok htexts⟩

/-- Well-formed declarations are emitted, from the left margin on. -/
theorem emit_ok (hstyle : style.decided = true) {body : List Decl}
    (h : ∀ decl ∈ body, decl.wellFormed = true) (count : Int) :
    ∃ text, (Dialect.styled style).emit body count = .ok text 0 := by
  obtain ⟨texts, htexts⟩ := decls_succeeds hstyle h 0
  refine ⟨"\n\n".intercalate texts, ?_⟩
  show ((Dialect.styled style).decls body >>= fun texts => pure ("\n\n".intercalate texts)) 0 = _
  simp only [Bind.bind, EStateM.bind, htexts]
  rfl

end Dialect

end Polyglot
