import Polyglot.Proofs.Decl.Derivation
import Polyglot.Proofs.Ty.Surface

/-!
# Unions in another layout

The grammar of unions looks at places for one thing only: a name or a parenthesis that starts a line
is no argument of the type before it. Tokens of a union can therefore be moved to any other places,
as long as none of these is brought to the start of a line.

Result: `derivesUnion_relaid`: moved tokens derive the same union.
-/

namespace Polyglot.Grammar

open Polyglot.Parser

/-! ## Moved tokens -/

/-- Whether a token can start a type. -/
def opensType (t : Token) : Bool :=
  isIdent (some t.lexeme) || t.lexeme == .symbol .openParen

/-- A token and the same token at another place, where it can still be part of a type. -/
structure Relaid (pair : Token × Token) : Prop where
  lexeme : pair.2.lexeme = pair.1.lexeme
  inline : opensType pair.2 = true → pair.2.pos.col ≠ 1

/-- Each token of a list paired with its moved copy. -/
theorem exists_relaid {ts us : List Token} (hlexemes : us.map Token.lexeme = ts.map Token.lexeme)
    (hinline : ∀ u ∈ us, opensType u = true → u.pos.col ≠ 1) :
    ∃ pairs : List (Token × Token), pairs.map Prod.fst = ts ∧ pairs.map Prod.snd = us ∧
      ∀ pair ∈ pairs, Relaid pair := by
  induction ts generalizing us with
  | nil =>
    rw [List.map_nil, List.map_eq_nil_iff] at hlexemes
    exact ⟨[], rfl, hlexemes.symm, fun pair hpair => absurd hpair List.not_mem_nil⟩
  | cons t ts ih =>
    obtain ⟨u, us, rfl, hu, hus⟩ := List.map_eq_cons_iff.mp hlexemes
    rw [List.forall_mem_cons] at hinline
    obtain ⟨pairs, rfl, rfl, hpairs⟩ := ih hus hinline.2
    exact ⟨(t, u) :: pairs, rfl, rfl, List.forall_mem_cons.mpr ⟨⟨hu, hinline.1⟩, hpairs⟩⟩

section Sequences

variable {α : Type} {P Q : List Token → α → Prop} {separator : Lexeme}

/-- Phrases behind separators are moved one by one. -/
theorem manyAfter_relaid {pairs : List (Token × Token)} {as : List α}
    (hpairs : ∀ pair ∈ pairs, Relaid pair)
    (h : Many (After (fun t => t.lexeme = separator) P) (pairs.map Prod.fst) as)
    (hphrase : ∀ (part : List (Token × Token)) (a : α), part <:+: pairs → P (part.map Prod.fst) a →
      Q (part.map Prod.snd) a) :
    Many (After (fun t => t.lexeme = separator) Q) (pairs.map Prod.snd) as := by
  refine ((h.of_map rfl).mono_of_part fun part a hafter hpart => ?_).map
  cases After.of_map hafter with
  | @mk pair part _ hseparator hp =>
    have hmem : pair ∈ pairs := hpart.subset List.mem_cons_self
    refine .mk ((hpairs pair hmem).lexeme.trans hseparator) (hphrase part a ?_ hp)
    exact (List.suffix_cons pair part).isInfix.trans hpart

theorem enclosed_relaid {close : Symbol} {pairs : List (Token × Token)} {as : List α}
    (hpairs : ∀ pair ∈ pairs, Relaid pair) (h : Enclosed close P (pairs.map Prod.fst) as)
    (hphrase : ∀ (part : List (Token × Token)) (a : α), part <:+: pairs → P (part.map Prod.fst) a →
      Q (part.map Prod.snd) a) :
    Enclosed close Q (pairs.map Prod.snd) as := by
  generalize hts : pairs.map Prod.fst = ts at h
  cases h with
  | @nil t ht =>
    obtain ⟨pair, rfl, rfl⟩ := List.map_eq_singleton_iff.mp hts
    exact .nil ((hpairs pair List.mem_cons_self).lexeme.trans ht)
  | @cons t ts us a as hfirst hmany ht =>
    obtain ⟨first, others, rfl, rfl, hothers⟩ := List.map_eq_append_iff.mp hts
    obtain ⟨rest, last, rfl, rfl, hlast⟩ := List.map_eq_append_iff.mp hothers
    obtain ⟨pair, rfl, rfl⟩ := List.map_eq_singleton_iff.mp hlast
    simp only [List.forall_mem_append, List.forall_mem_singleton] at hpairs
    simp only [List.map_append, List.map_singleton]
    refine .cons (hphrase first a (List.prefix_append _ _).isInfix hfirst)
      (manyAfter_relaid hpairs.2.1 hmany fun part a hpart => hphrase part a ?_)
      (hpairs.2.2.lexeme.trans ht)
    exact hpart.trans ⟨first, [pair], List.append_assoc _ _ _⟩

end Sequences

/-! ## Moved phrases -/

theorem derivesType_relaid {rule : TypeRule} {ts : List Token} {ty : Ty}
    (h : DerivesType rule ts ty) :
    ∀ {pairs : List (Token × Token)}, pairs.map Prod.fst = ts → (∀ pair ∈ pairs, Relaid pair) →
      DerivesType rule (pairs.map Prod.snd) ty := by
  refine derivesType_induction
    (motive := fun rule ts ty => ∀ {pairs : List (Token × Token)}, pairs.map Prod.fst = ts →
      (∀ pair ∈ pairs, Relaid pair) → DerivesType rule (pairs.map Prod.snd) ty)
    (fun {rule ts ty} h ih {pairs} hts hpairs => ?_) h
  cases h with
  | @paren opening closing ts us first rest hopening hfirst hmany hclosing =>
    obtain ⟨⟨_, opening'⟩, others, rfl, rfl, hothers⟩ := List.map_eq_cons_iff.mp hts
    obtain ⟨firsts, behind, rfl, rfl, hbehind⟩ := List.map_eq_append_iff.mp hothers
    obtain ⟨rests, last, rfl, rfl, hlast⟩ := List.map_eq_append_iff.mp hbehind
    obtain ⟨⟨_, closing'⟩, rfl, rfl⟩ := List.map_eq_singleton_iff.mp hlast
    simp only [List.forall_mem_cons, List.forall_mem_append, List.not_mem_nil,
      false_implies, implies_true, and_true] at hpairs
    simp only [List.map_cons, List.map_append, List.map_nil]
    refine .paren (hpairs.1.lexeme.trans hopening)
      (ih hfirst (.inl (by grind)) rfl hpairs.2.1) ?_ (hpairs.2.2.2.lexeme.trans hclosing)
    refine manyAfter_relaid hpairs.2.2.1 hmany fun part ty hpart hty => ?_
    have hlength := hpart.length_le
    exact ih hty (.inl (by grind)) rfl fun pair hpair => hpairs.2.2.1 pair (hpart.subset hpair)
  | element h => exact .element (ih h (.inr ⟨rfl, rfl, by decide⟩) hts hpairs)
  | argument h => exact .argument (ih h (.inr ⟨rfl, rfl, by decide⟩) hts hpairs)
  | @applied name pos ts args hargs =>
    obtain ⟨⟨_, ⟨l, pos'⟩⟩, others, rfl, rfl, rfl⟩ := List.map_eq_cons_iff.mp hts
    rw [List.forall_mem_cons] at hpairs
    obtain rfl : l = .ident name := hpairs.1.lexeme
    refine .applied ((hargs.of_map rfl).mono_of_part fun part ty hinline hpart => ?_).map
    have hpart' : ∀ pair ∈ part, Relaid pair := fun pair hpair =>
      hpairs.2 pair (hpart.subset hpair)
    have hlength := hpart.length_le
    generalize hus : part.map Prod.fst = us at hinline
    cases hinline with
    | @mk t us _ harg _ =>
      have hmoved := ih harg (.inl (by grind)) hus hpart'
      obtain ⟨pair, part, rfl, rfl, rfl⟩ := List.map_eq_cons_iff.mp hus
      exact .mk hmoved ((hpart' pair List.mem_cons_self).inline (derivesType_starts hmoved))
  | @name name pos =>
    obtain ⟨⟨_, ⟨l, pos'⟩⟩, rfl, rfl⟩ := List.map_eq_singleton_iff.mp hts
    obtain rfl : l = .ident name := (hpairs _ List.mem_cons_self).lexeme
    exact .name

theorem derivesField_relaid {pairs : List (Token × Token)} {field : Binding}
    (hpairs : ∀ pair ∈ pairs, Relaid pair) (h : DerivesField (pairs.map Prod.fst) field) :
    DerivesField (pairs.map Prod.snd) field := by
  generalize hts : pairs.map Prod.fst = ts at h
  cases h with
  | @mk name pos colon ts ty hcolon hty =>
    obtain ⟨⟨_, ⟨l, pos'⟩⟩, others, rfl, ⟨⟩, hothers⟩ := List.map_eq_cons_iff.mp hts
    obtain ⟨⟨_, colon'⟩, types, rfl, rfl, rfl⟩ := List.map_eq_cons_iff.mp hothers
    simp only [List.forall_mem_cons] at hpairs
    obtain rfl : l = .ident name := hpairs.1.lexeme
    exact .mk (hpairs.2.1.lexeme.trans hcolon) (derivesType_relaid hty rfl hpairs.2.2)

theorem derivesTag_relaid {pairs : List (Token × Token)} {declared : Tag}
    (hpairs : ∀ pair ∈ pairs, Relaid pair) (h : DerivesTag (pairs.map Prod.fst) declared) :
    DerivesTag (pairs.map Prod.snd) declared := by
  generalize hts : pairs.map Prod.fst = ts at h
  cases h with
  | @plain name pos hupper =>
    obtain ⟨⟨_, ⟨l, pos'⟩⟩, rfl, rfl⟩ := List.map_eq_singleton_iff.mp hts
    obtain rfl : l = .ident name := (hpairs _ List.mem_cons_self).lexeme
    exact .plain hupper
  | @record name pos opening ts fields hupper hopening hfields =>
    obtain ⟨⟨_, ⟨l, pos'⟩⟩, others, rfl, ⟨⟩, hothers⟩ := List.map_eq_cons_iff.mp hts
    obtain ⟨⟨_, opening'⟩, inside, rfl, rfl, rfl⟩ := List.map_eq_cons_iff.mp hothers
    simp only [List.forall_mem_cons] at hpairs
    obtain rfl : l = .ident name := hpairs.1.lexeme
    refine .record hupper (hpairs.2.1.lexeme.trans hopening)
      (enclosed_relaid hpairs.2.2 hfields fun part field hpart => derivesField_relaid ?_)
    exact fun pair hpair => hpairs.2.2 pair (hpart.subset hpair)

theorem map_lexeme_relaid {pairs : List (Token × Token)} (hpairs : ∀ pair ∈ pairs, Relaid pair) :
    (pairs.map Prod.snd).map Token.lexeme = (pairs.map Prod.fst).map Token.lexeme := by
  rw [List.map_map, List.map_map]
  exact List.map_congr_left fun pair hpair => (hpairs pair hpair).lexeme

/-- Moved tokens derive the same union, if none that can start a type is brought to the start of a
line. -/
theorem derivesUnion_relaid {ts us : List Token} {declared : Union} (h : DerivesUnion ts declared)
    (hlexemes : us.map Token.lexeme = ts.map Token.lexeme)
    (hinline : ∀ u ∈ us, opensType u = true → u.pos.col ≠ 1) : DerivesUnion us declared := by
  obtain ⟨pairs, hfst, rfl, hpairs⟩ := exists_relaid hlexemes hinline
  clear hlexemes hinline
  cases h with
  | @mk word equals name pos params bar ts us names first rest hword hupper hparams hequals hbar
      hfirst hmany =>
    obtain ⟨⟨_, word'⟩, named, rfl, rfl, hnamed⟩ := List.map_eq_cons_iff.mp hfst
    obtain ⟨⟨_, ⟨l, pos'⟩⟩, headed, rfl, ⟨⟩, hheaded⟩ := List.map_eq_cons_iff.mp hnamed
    obtain ⟨params, defined, rfl, rfl, hdefined⟩ := List.map_eq_append_iff.mp hheaded
    obtain ⟨⟨_, equals'⟩, barred, rfl, rfl, hbarred⟩ := List.map_eq_cons_iff.mp hdefined
    obtain ⟨bar, tags, rfl, rfl, htags⟩ := List.map_eq_append_iff.mp hbarred
    obtain ⟨firsts, rests, rfl, rfl, rfl⟩ := List.map_eq_append_iff.mp htags
    simp only [List.forall_mem_cons, List.forall_mem_append] at hpairs
    obtain ⟨hword', hname', hparams', hequals', hbar', hfirsts, hrests⟩ := hpairs
    obtain rfl : l = .ident name := hname'.lexeme
    rw [← map_lexeme_relaid hparams'] at hparams
    rw [← map_lexeme_relaid hbar'] at hbar
    simp only [List.map_cons, List.map_append]
    refine .mk (hword'.lexeme.trans hword) hupper hparams (hequals'.lexeme.trans hequals) hbar
      (derivesTag_relaid hfirsts hfirst)
      (manyAfter_relaid hrests hmany fun part tag hpart => derivesTag_relaid ?_)
    exact fun pair hpair => hrests pair (hpart.subset hpair)

end Polyglot.Grammar
