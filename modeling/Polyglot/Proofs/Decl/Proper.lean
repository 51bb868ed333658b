import Polyglot.Block.Reading
import Polyglot.Proofs.Decl.Derivation
import Polyglot.Proofs.Expr.Proper
import Polyglot.Proofs.Ty.Surface

/-!
# Proper declarations

A declaration that was read is `Proper`: its names can be written, a union has a tag, and types and
bodies are proper. `read_proper` says so of every block that can be read.
-/

namespace Polyglot

structure Binding.Proper (binding : Binding) : Prop where
  name : isPlainName binding.name
  type : binding.type.Proper false

structure Tag.Proper (tag : Tag) : Prop where
  name : isPlainName tag.name
  upper : isUpperName tag.name = true
  fields : ∀ field ∈ tag.fields, field.Proper

structure Union.Proper (union : Union) : Prop where
  name : isPlainName union.name
  upper : isUpperName union.name = true
  params : ∃ names : List String, union.params = names.map Ty.var ∧ ∀ name ∈ names, isPlainName name
  tags_ne_nil : union.tags ≠ []
  tags : ∀ tag ∈ union.tags, tag.Proper

structure Equation.Proper (equation : Equation) : Prop where
  name : isPlainName equation.name
  params : ∀ param ∈ equation.params, param.Proper
  result : equation.result.Proper false
  body : equation.body.Proper

/-- The declarations that can be read. -/
inductive Decl.Proper : Decl → Prop
  | union {declared : Union} : declared.Proper → Proper (.union declared)
  | equation {declared : Equation} : declared.Proper → Proper (Grammar.declaration declared)

theorem Decl.Proper.of_union {declared : Union} (h : (Decl.union declared).Proper) :
    declared.Proper := by
  generalize hdecl : Decl.union declared = decl at h
  cases h with
  | union h =>
    cases hdecl
    exact h
  | equation h =>
    unfold Grammar.declaration at hdecl
    split at hdecl <;> cases hdecl

namespace Grammar

/-! ## Unions -/

theorem derivesField_proper {ts : List Token} {declared : Binding} (h : DerivesField ts declared)
    (hv : Valid (ts.map Token.lexeme)) : declared.Proper := by
  cases h with
  | mk _ hty =>
    rw [List.map_cons, List.map_cons, valid_cons, valid_cons] at hv
    exact ⟨hv.1, derivesType_proper hty hv.2.2⟩

theorem derivesTag_proper {ts : List Token} {declared : Tag} (h : DerivesTag ts declared)
    (hv : Valid (ts.map Token.lexeme)) : declared.Proper := by
  cases h with
  | plain hupper =>
    rw [List.map_cons, valid_cons] at hv
    exact ⟨hv.1, hupper, fun field hfield => absurd hfield List.not_mem_nil⟩
  | @record name pos opening ts fields hupper _ hfields =>
    rw [List.map_cons, List.map_cons, valid_cons, valid_cons] at hv
    refine ⟨hv.1, hupper, fun field hfield => ?_⟩
    obtain ⟨us, hpart, hus⟩ := hfields.exists_of_mem hfield
    exact derivesField_proper hus (hv.2.2.of_part (hpart.map Token.lexeme))

theorem valid_idents {names : List String} (h : Valid (names.map Lexeme.ident)) :
    ∀ name ∈ names, isPlainName name :=
  fun _ hname => h _ (List.mem_map_of_mem hname)

theorem derivesUnion_proper {ts : List Token} {declared : Union} (h : DerivesUnion ts declared)
    (hv : Valid (ts.map Token.lexeme)) : declared.Proper := by
  cases h with
  | @mk word equals name pos params bar ts us names first rest _ hupper hparams _ _ hfirst hmany =>
    simp only [List.map_cons, List.map_append, valid_cons, valid_append, hparams] at hv
    obtain ⟨_, hname, hnames, _, _, hts, hus⟩ := hv
    refine ⟨hname, hupper, ⟨names, rfl, valid_idents hnames⟩, List.cons_ne_nil _ _, ?_⟩
    refine List.forall_mem_cons.mpr ⟨derivesTag_proper hfirst hts, fun tag htag => ?_⟩
    obtain ⟨vs, hpart, hafter⟩ := hmany.exists_of_mem htag
    cases hafter with
    | @mk bar ws _ _ hws =>
      have hws' : ws <:+: us := (List.suffix_cons bar ws).isInfix.trans hpart
      exact derivesTag_proper hws (hus.of_part (hws'.map Token.lexeme))

/-! ## Equations -/

theorem derivesSignature_proper {ts : List Token} {name : String} {types : List Ty}
    (h : DerivesSignature ts name types) (hv : Valid (ts.map Token.lexeme)) :
    ∀ ty ∈ types, ty.Proper false := by
  cases h with
  | @mk name pos colon ts us first rest _ hfirst hmany =>
    simp only [List.map_cons, List.map_append, valid_cons, valid_append] at hv
    obtain ⟨_, _, hts, hus⟩ := hv
    refine List.forall_mem_cons.mpr ⟨derivesType_proper hfirst hts, fun ty hty => ?_⟩
    obtain ⟨vs, hpart, hafter⟩ := hmany.exists_of_mem hty
    cases hafter with
    | @mk arrow ws _ _ hws =>
      have hws' : ws <:+: us := (List.suffix_cons arrow ws).isInfix.trans hpart
      exact derivesType_proper hws (hus.of_part (hws'.map Token.lexeme))

/-- Assigning types to parameters keeps both. -/
theorem assignTypes_proper {names : List String} {types : List Ty} {bindings : List Binding}
    {result : Ty} (h : assignTypes names types = some (bindings, result))
    (hnames : ∀ name ∈ names, isPlainName name) (htypes : ∀ ty ∈ types, ty.Proper false) :
    (∀ binding ∈ bindings, binding.Proper) ∧ result.Proper false := by
  fun_induction assignTypes names types generalizing bindings result with
  | case1 ty =>
    cases h
    exact ⟨fun binding hbinding => absurd hbinding List.not_mem_nil, htypes _ List.mem_cons_self⟩
  | case2 name names ty types ih =>
    obtain ⟨⟨others, last⟩, hrest, heq⟩ := Option.map_eq_some_iff.mp h
    cases heq
    rw [List.forall_mem_cons] at hnames htypes
    obtain ⟨hothers, hlast⟩ := ih hrest hnames.2 htypes.2
    exact ⟨List.forall_mem_cons.mpr ⟨⟨hnames.1, htypes.1⟩, hothers⟩, hlast⟩
  | case3 => cases h

theorem equationTypes_proper {count : Nat} {types : List Ty} (h : ∀ ty ∈ types, ty.Proper false) :
    ∀ ty ∈ equationTypes count types, ty.Proper false := by
  unfold equationTypes
  split
  · next hmany => exact List.forall_mem_singleton.mpr (.func hmany.2 h)
  · exact h

theorem any_proper : Ty.any.Proper false :=
  .constant (by unfold isPlainName; decide) (.inr (by decide))

theorem declare_proper {declared : Option (String × List Ty)} {name : String} {pos : Position}
    {names : List String} {body : Expr} {decl : Decl}
    (h : declare declared name pos names body = .ok decl) (hname : isPlainName name)
    (hnames : ∀ param ∈ names, isPlainName param) (hbody : body.Proper)
    (htypes : ∀ found ∈ declared, ∀ ty ∈ found.2, ty.Proper false) : decl.Proper := by
  cases declared with
  | none =>
    cases h
    refine .equation ⟨hname, fun param hparam => ?_, any_proper, hbody⟩
    obtain ⟨found, hfound, rfl⟩ := List.mem_map.mp hparam
    exact ⟨hnames found hfound, any_proper⟩
  | some found =>
    obtain ⟨signed, types⟩ := found
    rw [declare] at h
    split at h
    · cases h
    · dsimp only at h
      split at h
      · next bindings result hassign =>
        cases h
        obtain ⟨hparams, hresult⟩ := assignTypes_proper hassign hnames
          (equationTypes_proper (htypes _ rfl))
        exact .equation ⟨hname, hparams, hresult, hbody⟩
      · cases h

theorem derivesClause_proper {declared : Option (String × List Ty)} {ts : List Token} {decl : Decl}
    (h : DerivesClause declared ts decl) (hv : Valid (ts.map Token.lexeme))
    (htypes : ∀ found ∈ declared, ∀ ty ∈ found.2, ty.Proper false) : decl.Proper := by
  cases h with
  | mk hparams _ hbody hdecl =>
    simp only [List.map_cons, List.map_append, valid_cons, valid_append, hparams] at hv
    obtain ⟨hname, hnames, _, hts⟩ := hv
    exact declare_proper hdecl hname (valid_idents hnames) (derives_proper hbody hts) htypes

theorem derivesEquation_proper {ts : List Token} {decl : Decl} (h : DerivesEquation ts decl)
    (hv : Valid (ts.map Token.lexeme)) : decl.Proper := by
  cases h with
  | plain h => exact derivesClause_proper h hv fun found hfound => by cases hfound
  | signed hsigned _ h =>
    rw [List.map_append, valid_append] at hv
    refine derivesClause_proper h hv.2 fun found hfound => ?_
    cases hfound
    exact derivesSignature_proper hsigned hv.1

end Grammar

/-! ## Blocks -/

namespace Block

open Grammar

/-- A block that can be read has a form and tokens. -/
theorem read_eq_ok {block : Block} {decl : Decl} (h : block.read = .ok decl) :
    ∃ form tokens, formOf block.text (block.start + 1) = .ok form ∧
      scan block.text (block.start + 1) = .ok tokens ∧
      (grammar form).outcome (Cursor.ofScan tokens) = .ok decl := by
  unfold read at h
  cases hform : formOf block.text (block.start + 1) with
  | error d =>
    rw [hform] at h
    cases h
  | ok form =>
    rw [hform] at h
    cases hscan : scan block.text (block.start + 1) with
    | error d =>
      rw [hscan] at h
      cases h
    | ok tokens =>
      rw [hscan] at h
      exact ⟨form, tokens, rfl, rfl, h⟩

/-- The declaration of a block that can be read is proper. -/
theorem read_proper {block : Block} {decl : Decl} (h : block.read = .ok decl) : decl.Proper := by
  obtain ⟨form, tokens, _, hscan, houtcome⟩ := read_eq_ok h
  have hv := valid_of_scan hscan
  obtain ⟨after, hread⟩ := Parser.eq_ok_of_outcome houtcome
  have hequation : equation (Cursor.ofScan tokens) = .ok decl after → decl.Proper :=
    fun heq => derivesEquation_proper (derivesEquation_of_ok heq) hv
  cases form with
  | function => exact hequation hread
  | const => exact hequation hread
  | union =>
    obtain ⟨declared, c, hunion, hlast⟩ := Parser.bind_eq_ok hread
    cases hlast
    obtain ⟨ts, _, hts, hderives⟩ := (reads_union _).of_ok hunion
    subst hts
    exact .union (derivesUnion_proper hderives hv)

end Block

end Polyglot
