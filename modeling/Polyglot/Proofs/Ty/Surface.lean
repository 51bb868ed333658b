import Polyglot.Proofs.Token.Joined
import Polyglot.Proofs.Ty.Derivation

/-!
# Types written down

A type that was read is `Proper`. The derw dialect writes it as the lexemes `Ty.lexemes`, and these
are read again as its normal form. The two differ where a builtin is an argument: it is read as a
concrete type from parentheses, written without them, and then read as a variable.

Results:
1. `derivesType_proper`: what the type grammar derives from valid lexemes is proper.
2. `typeText_spelled`: a proper type is written as its lexemes.
3. `derivesType_lexemes`: the lexemes of a proper type derive its normal form.
-/

namespace Polyglot

namespace Ty

/-! ## Proper types -/

/-- The types that can be read; `nested` if the type is an argument of another. -/
inductive Proper : Bool → Ty → Prop
  | var {nested : Bool} {name : String} : isPlainName name → isUpperName name = false →
      (nested = false → isBuiltin name = false) → Proper nested (.var name)
  | constant {nested : Bool} {name : String} : isPlainName name →
      isUpperName name = true ∨ isBuiltin name = true → Proper nested (.named name [])
  | applied {nested : Bool} {name : String} {args : List Ty} : isPlainName name → args ≠ [] →
      (∀ arg ∈ args, Proper true arg) → Proper nested (.named name args)
  | func {nested : Bool} {parts : List Ty} : 2 ≤ parts.length → (∀ ty ∈ parts, Proper false ty) →
      Proper nested (.func parts)

theorem Proper.nested {ty : Ty} (h : Proper false ty) : Proper true ty := by
  cases h with
  | var hname hlower _ => exact .var hname hlower fun hfalse => by cases hfalse
  | constant hname hkind => exact .constant hname hkind
  | applied hname hne hargs => exact .applied hname hne hargs
  | func hlength hparts => exact .func hlength hparts

/-! ## Normal forms -/

mutual

/-- The type with every builtin that is an argument turned into a variable. -/
def normal (nested : Bool) : Ty → Ty
  | .named name [] => if nested && isBuiltin name then .var name else .named name []
  | .named name (arg :: args) => .named name (normalAll true (arg :: args))
  | .var name => .var name
  | .func parts => .func (normalAll false parts)

def normalAll (nested : Bool) : List Ty → List Ty
  | [] => []
  | ty :: rest => normal nested ty :: normalAll nested rest

end

theorem normalAll_eq_map (nested : Bool) (types : List Ty) :
    normalAll nested types = types.map (normal nested) := by
  induction types with
  | nil => rfl
  | cons ty types ih => rw [normalAll, ih, List.map_cons]

/-! ## Lexemes -/

mutual

/-- The lexemes of a type; `nested` if it is an argument of another. -/
def lexemes (nested : Bool) : Ty → List Lexeme
  | .named name [] => [.ident name]
  | .named name (arg :: args) =>
      parensIf nested (.ident name :: (lexemesAll true (arg :: args)).flatten)
  | .var name => [.ident name]
  | .func parts => inParens ([.symbol .arrow].intercalate (lexemesAll false parts))

def lexemesAll (nested : Bool) : List Ty → List (List Lexeme)
  | [] => []
  | ty :: rest => lexemes nested ty :: lexemesAll nested rest

end

theorem lexemesAll_eq_map (nested : Bool) (types : List Ty) :
    lexemesAll nested types = types.map (lexemes nested) := by
  induction types with
  | nil => rfl
  | cons ty types ih => rw [lexemesAll, ih, List.map_cons]

end Ty

namespace Grammar

/-! ## What is read is proper -/

/-- Derivations of types by induction on the number of tokens; a type in parentheses comes before
the other types of as many tokens. -/
theorem derivesType_induction {motive : TypeRule → List Token → Ty → Prop}
    (step : ∀ {rule ts ty}, DerivesType rule ts ty →
      (∀ {rule' us ty'}, DerivesType rule' us ty' →
        us.length < ts.length ∨ us = ts ∧ rule' = .paren ∧ rule ≠ .paren → motive rule' us ty') →
      motive rule ts ty)
    {rule : TypeRule} {ts : List Token} {ty : Ty} (h : DerivesType rule ts ty) :
    motive rule ts ty := by
  induction hn : ts.length using Nat.strongRecOn generalizing rule ts ty with
  | ind n ih =>
    have hshorter : ∀ {rule' us ty'}, DerivesType rule' us ty' → us.length < n →
        motive rule' us ty' := fun h' hlt => ih _ hlt h' rfl
    refine step h fun {rule' us ty'} h' hinside => ?_
    rcases hinside with hlt | ⟨rfl, rfl, _⟩
    · exact hshorter h' (hn ▸ hlt)
    · refine step h' fun {rule'' vs ty''} h'' hinside' => ?_
      rcases hinside' with hlt | ⟨_, _, hne⟩
      · exact hshorter h'' (hn ▸ hlt)
      · exact absurd rfl hne

/-- Whether the types of a rule are arguments. -/
def TypeRule.nested (rule : TypeRule) : Bool :=
  rule == .argument

theorem applied_proper {name : String} (hname : isPlainName name) {args : List Ty}
    (hargs : ∀ arg ∈ args, arg.Proper true) : (applied name args).Proper false := by
  unfold applied
  split
  · next hvar =>
    simp only [Bool.and_eq_true, Bool.not_eq_true'] at hvar
    exact .var hname hvar.1.2 fun _ => hvar.2
  · next hnamed =>
    cases args with
    | nil =>
      refine .constant hname ?_
      cases hupper : isUpperName name with
      | true => exact .inl rfl
      | false =>
        refine .inr ?_
        simpa [hupper] using hnamed
    | cons arg args => exact .applied hname (List.cons_ne_nil _ _) hargs

/-- What the type grammar derives from valid lexemes is proper. -/
theorem derivesType_proper {rule : TypeRule} {ts : List Token} {ty : Ty}
    (h : DerivesType rule ts ty) : Valid (ts.map Token.lexeme) → ty.Proper rule.nested := by
  refine derivesType_induction
    (motive := fun rule ts ty => Valid (ts.map Token.lexeme) → ty.Proper rule.nested)
    (fun {rule ts ty} h ih hv => ?_) h
  cases h with
  | @paren opening closing ts us first rest _ hfirst hrest _ =>
    simp only [List.map_cons, List.map_append, valid_cons, valid_append] at hv
    have hone := ih hfirst (.inl (by grind)) hv.2.1
    have hothers : ∀ ty ∈ rest, ty.Proper false := by
      intro ty hty
      obtain ⟨vs, hpart, hafter⟩ := hrest.exists_of_mem hty
      cases hafter with
      | @mk arrow ws _ _ hws =>
        have hws' : ws <:+: us := (List.suffix_cons arrow ws).isInfix.trans hpart
        have hlength := hws'.length_le
        refine ih hws (.inl (by grind)) (hv.2.2.1.of_part ?_)
        exact hws'.map Token.lexeme
    split
    · exact hone
    · next hne =>
      refine .func ?_ (List.forall_mem_cons.mpr ⟨hone, hothers⟩)
      have hpos : 0 < rest.length := List.length_pos_iff.mpr (by simpa using hne)
      rw [List.length_cons]
      omega
  | element h =>
    have hproper := ih h (.inr ⟨rfl, rfl, by decide⟩) hv
    exact hproper
  | argument h =>
    have hproper := ih h (.inr ⟨rfl, rfl, by decide⟩) hv
    exact hproper.nested
  | @applied name pos ts args hargs =>
    rw [List.map_cons, valid_cons] at hv
    refine applied_proper hv.1 fun arg harg => ?_
    obtain ⟨us, hpart, hinline⟩ := hargs.exists_of_mem harg
    cases hinline with
    | mk h _ =>
      exact ih h (.inl (Nat.lt_succ_of_le hpart.length_le)) (hv.2.of_part (hpart.map Token.lexeme))
  | @name name pos =>
    rw [List.map_cons, valid_cons] at hv
    split
    · next hupper => exact .constant hv.1 (.inl hupper)
    · next hlower => exact .var hv.1 (by simpa using hlower) fun hfalse => by cases hfalse

end Grammar

/-! ## Writing types -/

open Ty

theorem typeName_derw (name : String) : Surface.typeName .derw name = name := by
  unfold Surface.typeName
  rfl

theorem typeTexts_spelled {nested : Bool} {types : List Ty}
    (h : ∀ ty ∈ types, Spelled (Surface.typeText .derw nested ty) (ty.lexemes nested)) :
    List.Forall₂ Spelled (Surface.typeTexts .derw nested types) (lexemesAll nested types) := by
  induction types with
  | nil => exact .nil
  | cons ty types ih =>
    exact .cons (h ty List.mem_cons_self) (ih fun ty' hty' => h ty' (List.mem_cons_of_mem ty hty'))

theorem typeTexts_ne_nil {surface : Surface} {nested : Bool} {types : List Ty} (h : types ≠ []) :
    surface.typeTexts nested types ≠ [] := by
  obtain ⟨ty, types, rfl⟩ := List.exists_cons_of_ne_nil h
  exact List.cons_ne_nil _ _

/-- A proper type is written as its lexemes. -/
theorem typeText_spelled {nested : Bool} {ty : Ty} (h : ty.Proper nested) :
    Spelled (Surface.typeText .derw nested ty) (ty.lexemes nested) := by
  induction h with
  | var hname _ _ =>
    rw [Surface.typeText, typeName_derw]
    exact spelled_ident hname
  | constant hname _ =>
    rw [Surface.typeText, typeName_derw]
    exact spelled_ident hname
  | @applied nested name args hname hne _ ih =>
    obtain ⟨arg, args, rfl⟩ := List.exists_cons_of_ne_nil hne
    have hargs := spelled_intercalate spelled_space (typeTexts_spelled ih) (typeTexts_ne_nil hne)
    rw [List.intercalate_nil_left] at hargs
    rw [Surface.typeText, typeName_derw]
    exact spelled_parenthesized (.spaced (spelled_ident hname) hargs) nested
  | @func _ parts hlength _ ih =>
    have hne : parts ≠ [] := by
      rintro rfl
      cases hlength
    have hparts := spelled_intercalate spelled_arrow (typeTexts_spelled ih) (typeTexts_ne_nil hne)
    rw [Surface.typeText]
    exact spelled_parens hparts

/-- The types of a signature. -/
theorem signature_spelled {types : List Ty} (hne : types ≠ []) (h : ∀ ty ∈ types, ty.Proper false) :
    Spelled (" -> ".intercalate (Surface.typeTexts .derw false types))
      ([.symbol .arrow].intercalate (lexemesAll false types)) :=
  spelled_intercalate spelled_arrow (typeTexts_spelled fun ty hty => typeText_spelled (h ty hty))
    (typeTexts_ne_nil hne)

/-! ## Reading them again -/

namespace Grammar

/-- The tokens of a written type, none of which starts a line. -/
def WrittenAs (ls : List Lexeme) (ts : List Token) : Prop :=
  ts.map Token.lexeme = ls ∧ ∀ t ∈ ts, t.pos.col ≠ 1

theorem WrittenAs.of_part {ts us : List Token} {ls : List Lexeme} (h : ∀ t ∈ ts, t.pos.col ≠ 1)
    (hpart : us <:+: ts) (hls : us.map Token.lexeme = ls) : WrittenAs ls us :=
  ⟨hls, fun t ht => h t (hpart.subset ht)⟩

theorem writtenAs_append {ls ms : List Lexeme} {ts : List Token} (h : WrittenAs (ls ++ ms) ts) :
    ∃ us vs, ts = us ++ vs ∧ WrittenAs ls us ∧ WrittenAs ms vs := by
  obtain ⟨us, vs, rfl, hus, hvs⟩ := List.map_eq_append_iff.mp h.1
  exact ⟨us, vs, rfl, ⟨hus, fun t ht => h.2 t (List.mem_append_left vs ht)⟩,
    ⟨hvs, fun t ht => h.2 t (List.mem_append_right us ht)⟩⟩

theorem writtenAs_cons {l : Lexeme} {ls : List Lexeme} {ts : List Token}
    (h : WrittenAs (l :: ls) ts) :
    ∃ t us, ts = t :: us ∧ t.lexeme = l ∧ t.pos.col ≠ 1 ∧ WrittenAs ls us := by
  obtain ⟨t, us, rfl, ht, hus⟩ := List.map_eq_cons_iff.mp h.1
  exact ⟨t, us, rfl, ht, h.2 t List.mem_cons_self,
    ⟨hus, fun u hu => h.2 u (List.mem_cons_of_mem t hu)⟩⟩

theorem writtenAs_nil {ts : List Token} (h : WrittenAs [] ts) : ts = [] :=
  List.map_eq_nil_iff.mp h.1

/-- Items written behind separators are read one after the other. -/
theorem WrittenAs.manyAfter {α β : Type} {P : List Token → β → Prop} {f : α → List Lexeme}
    {g : α → β} {separator : Lexeme} {items : List α} {ts : List Token}
    (hts : WrittenAs (items.flatMap fun a => separator :: f a) ts)
    (h : ∀ a ∈ items, ∀ us, WrittenAs (f a) us → P us (g a)) :
    Many (After (fun t => t.lexeme = separator) P) ts (items.map g) := by
  have hmany : Many (After (· = separator) fun ls a => a ∈ items ∧ ls = f a)
      (items.flatMap fun a => separator :: f a) items :=
    manyAfter_of_forall (fun a ha => ⟨ha, rfl⟩) separator
  refine Many.map_right ((hmany.of_map hts.1).mono_of_part fun us a hus hpart => ?_)
  cases After.of_map hus with
  | @mk t vs _ ht hvs =>
    refine .mk ht (h a hvs.1 vs (.of_part hts.2 ?_ hvs.2))
    exact (List.suffix_cons t vs).isInfix.trans hpart

/-- What the lexemes of a type derive in its position. -/
def Rereads (nested : Bool) (ty : Ty) : Prop :=
  ∀ ts, WrittenAs (ty.lexemes nested) ts →
    DerivesType (if nested then .argument else .element) ts (ty.normal nested)

theorem rereads_arguments {args : List Ty} (h : ∀ arg ∈ args, Rereads true arg) {ts : List Token}
    (hts : WrittenAs (lexemesAll true args).flatten ts) :
    Many (Inline (DerivesType .argument)) ts (normalAll true args) := by
  rw [Ty.lexemesAll_eq_map] at hts
  rw [normalAll_eq_map]
  have hmany : Many (fun ls arg => arg ∈ args ∧ ls = Ty.lexemes true arg)
      (args.map (Ty.lexemes true)).flatten args :=
    many_of_forall fun arg harg => ⟨harg, rfl⟩
  refine Many.map_right ((hmany.of_map hts.1).mono_of_part fun us arg hus hpart => ?_)
  obtain ⟨harg, hls⟩ := hus
  have hderives := h arg harg us (.of_part hts.2 hpart hls)
  obtain ⟨t, us, rfl⟩ := List.exists_cons_of_ne_nil (derivesType_ne_nil hderives)
  exact .mk hderives (hts.2 t (hpart.subset List.mem_cons_self))

theorem rereads_elements {first : Ty} {rest : List Ty} (h : ∀ ty ∈ first :: rest, Rereads false ty)
    {ts : List Token}
    (hts : WrittenAs ([.symbol .arrow].intercalate (lexemesAll false (first :: rest))) ts) :
    ∃ us vs, ts = us ++ vs ∧ DerivesType .element us (first.normal false) ∧
      Many (After (fun t => t.lexeme = .symbol .arrow) (DerivesType .element)) vs
        (normalAll false rest) := by
  rw [Ty.lexemesAll_eq_map, List.intercalate_eq_flatMap] at hts
  obtain ⟨us, vs, rfl, hus, hvs⟩ := writtenAs_append hts
  refine ⟨us, vs, rfl, h first List.mem_cons_self us hus, ?_⟩
  rw [normalAll_eq_map]
  exact hvs.manyAfter fun ty hty => h ty (List.mem_cons_of_mem first hty)

theorem isUpperName_of_isBuiltin {name : String} (h : isBuiltin name = true) :
    isUpperName name = false := by
  simp only [isBuiltin, List.mem_cons, List.not_mem_nil, or_false, decide_eq_true_eq] at h
  rcases h with rfl | rfl | rfl | rfl | rfl <;> decide

theorem rereads_var {nested : Bool} {name : String} (hlower : isUpperName name = false)
    (hbuiltin : nested = false → isBuiltin name = false) : Rereads nested (.var name) := by
  intro ts hts
  obtain ⟨⟨l, pos⟩, us, rfl, rfl, _, hus⟩ := writtenAs_cons hts
  rw [writtenAs_nil hus]
  cases nested with
  | true =>
    have hname : DerivesType .argument [⟨.ident name, pos⟩] _ := .name
    rw [hlower] at hname
    exact hname
  | false =>
    have happlied : DerivesType .element [⟨.ident name, pos⟩] (applied name []) := .applied .nil
    rw [applied, hlower, hbuiltin rfl] at happlied
    exact happlied

theorem rereads_constant {nested : Bool} {name : String}
    (hkind : isUpperName name = true ∨ isBuiltin name = true) :
    Rereads nested (.named name []) := by
  intro ts hts
  obtain ⟨⟨l, pos⟩, us, rfl, rfl, _, hus⟩ := writtenAs_cons hts
  rw [writtenAs_nil hus]
  cases nested with
  | true =>
    have hname : DerivesType .argument [⟨.ident name, pos⟩] _ := .name
    cases hbuiltin : isBuiltin name with
    | true =>
      rw [isUpperName_of_isBuiltin hbuiltin] at hname
      rw [Ty.normal, hbuiltin]
      exact hname
    | false =>
      rw [hkind.resolve_right (by simp [hbuiltin])] at hname
      rw [Ty.normal, hbuiltin]
      exact hname
  | false =>
    have happlied : DerivesType .element [⟨.ident name, pos⟩] (applied name []) := .applied .nil
    have hnamed : applied name [] = .named name [] := by
      rcases hkind with hkind | hkind <;> simp [applied, hkind]
    rw [hnamed] at happlied
    exact happlied

theorem rereads_applied {nested : Bool} {name : String} {arg : Ty} {args : List Ty}
    (h : ∀ ty ∈ arg :: args, Rereads true ty) : Rereads nested (.named name (arg :: args)) := by
  have helement : ∀ {ts}, WrittenAs (.ident name :: (lexemesAll true (arg :: args)).flatten) ts →
      DerivesType .element ts (.named name (normalAll true (arg :: args))) := by
    intro ts hts
    obtain ⟨⟨l, pos⟩, us, rfl, rfl, _, hus⟩ := writtenAs_cons hts
    exact .applied (rereads_arguments h hus)
  intro ts hts
  cases nested with
  | false => exact helement hts
  | true =>
    obtain ⟨opening, us, rfl, hopening, _, hus⟩ := writtenAs_cons hts
    obtain ⟨vs, ws, rfl, hvs, hws⟩ := writtenAs_append hus
    obtain ⟨closing, xs, rfl, hclosing, _, hxs⟩ := writtenAs_cons hws
    rw [writtenAs_nil hxs]
    exact .argument (.paren hopening (helement hvs) .nil hclosing)

theorem rereads_func {nested : Bool} {first second : Ty} {rest : List Ty}
    (h : ∀ ty ∈ first :: second :: rest, Rereads false ty) :
    Rereads nested (.func (first :: second :: rest)) := by
  intro ts hts
  obtain ⟨opening, us, rfl, hopening, _, hus⟩ := writtenAs_cons hts
  obtain ⟨vs, ws, rfl, hvs, hws⟩ := writtenAs_append hus
  obtain ⟨closing, xs, rfl, hclosing, _, hxs⟩ := writtenAs_cons hws
  rw [writtenAs_nil hxs]
  obtain ⟨ys, zs, rfl, hfirst, hmany⟩ := rereads_elements h hvs
  have hparen := DerivesType.paren hopening hfirst hmany hclosing
  rw [← List.append_assoc] at hparen
  cases nested with
  | false => exact .element hparen
  | true => exact .argument hparen

/-- The lexemes of a proper type derive its normal form. -/
theorem derivesType_lexemes {nested : Bool} {ty : Ty} (h : ty.Proper nested) :
    Rereads nested ty := by
  induction h with
  | var _ hlower hbuiltin => exact rereads_var hlower hbuiltin
  | constant _ hkind => exact rereads_constant hkind
  | applied _ hne _ ih =>
    obtain ⟨arg, args, rfl⟩ := List.exists_cons_of_ne_nil hne
    exact rereads_applied ih
  | @func _ parts hlength _ ih =>
    match parts, hlength with
    | first :: second :: rest, _ => exact rereads_func ih

end Grammar

end Polyglot
