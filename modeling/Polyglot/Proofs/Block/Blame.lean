import Polyglot.Block.Reading
import Polyglot.Proofs.Decl.Derivation
import Polyglot.Proofs.Token.Places

/-!
# What a failed block is blamed on

A diagnostic names the part of the language that is wrong, and the place. Which parts that can be
depends on the form of the block alone (`area_of_read_error`), and it is always a definite one: the
recursion of the grammars never runs out. The place is that of a token or the end of the text, as
long as there are tokens at all (`read_eq_error`).
-/

namespace Polyglot

/-! ## Scanning and classifying -/

theorem area_of_scanFrom_error {line : Int} {col : Nat} {cs : List Char} {d : Diagnostic}
    (h : scanFrom line col cs = .error d) : d.area = .lexical := by
  fun_induction scanFrom line col cs with
  | case1 => cases h
  | case2 line col cs ih => exact ih h
  | case3 line col c cs hline hgap ih => exact ih h
  | case4 line col c cs hline hgap hcomment ih => exact ih h
  | case5 line col c cs hline hgap hcomment problem offset hread =>
    cases h
    rfl
  | case6 line col c cs hline hgap hcomment l hread width ih => exact ih (error_of_map_eq_error h)

theorem area_of_scan_error {text : String} {line : Int} {d : Diagnostic}
    (h : scan text line = .error d) : d.area = .lexical :=
  area_of_scanFrom_error h

theorem area_of_classify_error {line : Int} {lines : List String} {d : Diagnostic}
    (h : Heading.classify line lines = .error d) : d.area = .block := by
  fun_induction Heading.classify line lines with
  | case1 line => cases h; rfl
  | case2 line first rest hblank ih => exact ih h
  | case3 line first rest hblank form hform => cases h
  | case4 line first rest hblank hform => cases h; rfl

/-! ## Parsing -/

namespace Cursor

/-- The places that a cursor can be asked about: those of all tokens, and the end. -/
def places (c : Cursor) : List Position :=
  c.tokens.map Token.pos ++ [c.finish]

theorem Spans.places_eq {c after : Cursor} {ts : List Token} (h : c.Spans ts after) :
    after.places = c.places := by
  have htokens : after.tokens = c.tokens := by
    rw [tokens, tokens, h.past, h.rest, List.reverse_append, List.reverse_reverse,
      List.append_assoc]
  rw [places, places, htokens, h.finish]

theorem Spans.mem_places {c after : Cursor} {ts : List Token} (h : c.Spans ts after) {t : Token}
    (ht : t ∈ ts) : t.pos ∈ c.places := by
  have hread : t ∈ c.tokens := by
    rw [tokens, h.rest]
    exact List.mem_append_right _ (List.mem_append_left _ ht)
  exact List.mem_append_left _ (List.mem_map_of_mem hread)

/-- The places that a cursor has not passed yet. -/
def ahead (c : Cursor) : List Position :=
  c.rest.map Token.pos ++ [c.finish]

theorem mark_mem_ahead (c : Cursor) : c.mark.pos ∈ c.ahead := by
  unfold mark ahead
  cases c.rest with
  | nil => exact List.mem_cons_self
  | cons t ts => exact List.mem_cons_self

theorem mark_mem_places (c : Cursor) : c.mark.pos ∈ c.places := by
  rw [places, tokens, List.map_append, List.append_assoc]
  exact List.mem_append_right _ c.mark_mem_ahead

theorem Spans.ahead_eq {c after : Cursor} {ts : List Token} (h : c.Spans ts after) :
    c.ahead = ts.map Token.pos ++ after.ahead := by
  rw [ahead, ahead, h.rest, h.finish, List.map_append, List.append_assoc]

end Cursor

namespace Parser

variable {α β : Type} {areas : List Area} {places : List Position}

/-- A sequence that fails has failed in its first step, or behind it. -/
theorem eq_error_of_bind {p : Parser α} {f : α → Parser β} {c last : Cursor} {d : Diagnostic}
    (h : (p >>= f) c = .error d last) :
    p c = .error d last ∨ ∃ a after, p c = .ok a after ∧ f a after = .error d last := by
  simp only [Bind.bind, EStateM.bind] at h
  split at h
  · next a after hp => exact .inr ⟨a, after, hp, h⟩
  · next hp =>
    cases h
    exact .inl hp

/-- Among the given places, a value of the parser is one of which `holds` is true, and a failure
speaks of one of the areas and points at one of the places. -/
structure Blames (areas : List Area) (places : List Position) (p : Parser α) (holds : α → Prop) :
    Prop where
  ok : ∀ {c after : Cursor} {a : α}, c.places = places → p c = .ok a after →
    after.places = places ∧ holds a
  error : ∀ {c after : Cursor} {d : Diagnostic}, c.places = places → p c = .error d after →
    d.area ∈ areas ∧ d.pos ∈ places

theorem Blames.bind {p : Parser α} {f : α → Parser β} {P : α → Prop} {Q : β → Prop}
    (h : p.Blames areas places P) (hf : ∀ a, P a → (f a).Blames areas places Q) :
    (p >>= f).Blames areas places Q where
  ok := by
    intro c after b hc hok
    obtain ⟨a, middle, hp, hlast⟩ := bind_eq_ok hok
    obtain ⟨hmiddle, ha⟩ := h.ok hc hp
    exact (hf a ha).ok hmiddle hlast
  error := by
    intro c after d hc herror
    rcases eq_error_of_bind herror with hp | ⟨a, middle, hp, hlast⟩
    · exact h.error hc hp
    · obtain ⟨hmiddle, ha⟩ := h.ok hc hp
      exact (hf a ha).error hmiddle hlast

theorem Blames.mono {p : Parser α} {P Q : α → Prop} (h : p.Blames areas places P)
    (hPQ : ∀ a, P a → Q a) : p.Blames areas places Q where
  ok := by
    intro c after a hc hok
    exact (h.ok hc hok).imp_right (hPQ a)
  error := h.error

theorem blames_pure {P : α → Prop} {a : α} (h : P a) :
    (pure a : Parser α).Blames areas places P where
  ok := by
    intro c after b hc hok
    cases hok
    exact ⟨hc, h⟩
  error := by
    intro c after d hc herror
    cases herror

theorem blames_throw {P : α → Prop} {d : Diagnostic} (harea : d.area ∈ areas)
    (hpos : d.pos ∈ places) : (throw d : Parser α).Blames areas places P where
  ok := by
    intro c after b hc hok
    cases hok
  error := by
    intro c after d' hc herror
    cases herror
    exact ⟨harea, hpos⟩

/-- A parser that reads phrases blames the area that it reads in, at a token or the end. -/
theorem blames_of_reads {p : Parser α} {area : Area} {P : Cursor → List Token → α → Prop}
    (h : ∀ c, p.Reads area c (P c)) (harea : area ∈ areas) :
    p.Blames areas places fun a => ∃ c ts, P c ts a ∧ ∀ t ∈ ts, t.pos ∈ places where
  ok := by
    intro c after a hc hok
    obtain ⟨ts, hspan, hP⟩ := (h c).of_ok hok
    refine ⟨hspan.places_eq.trans hc, c, ts, hP, fun t ht => ?_⟩
    rw [← hc]
    exact hspan.mem_places ht
  error := by
    intro c after d hc herror
    obtain ⟨hd, ts, hspan, hpos⟩ := (h c).of_error herror
    rw [hd, ← hc]
    refine ⟨harea, ?_⟩
    rcases hpos with hpos | ⟨t, ht, hpos⟩
    · rw [hpos, ← hspan.places_eq]
      exact after.mark_mem_places
    · rw [hpos]
      exact hspan.mem_places ht

end Parser

open Polyglot.Parser Polyglot.Grammar

theorem declare_error {declared : Option (String × List Ty)} {name : String} {pos : Position}
    {params : List String} {body : Expr} {d : Diagnostic}
    (h : declare declared name pos params body = .error d) : d.area = .signature ∧ d.pos = pos := by
  unfold declare at h
  split at h
  · cases h
  · split at h
    · cases h
      exact ⟨rfl, rfl⟩
    · dsimp only at h
      split at h
      · cases h
      · cases h
        exact ⟨rfl, rfl⟩

theorem reads_signature (c : Cursor) : signature.Reads .signature c fun _ _ => True := by
  refine (reads_expectIdent c).bind fun _ _ c₁ _ _ => ?_
  refine (reads_expect c₁ _).bind fun _ _ c₂ _ _ => ?_
  refine (reads_typeElement c₂).bind fun _ _ c₃ _ _ => ?_
  refine (reads_manyAfter (k := c₃.rest.length) (fun c _ => reads_typeElement c)
    (Nat.le_refl _)).bind fun _ _ c₄ _ _ => ?_
  refine reads_get.mpr ?_
  split
  · exact reads_pure trivial
  · exact reads_fail _

theorem blames_signature (places : List Position) :
    signature.Blames [.signature, .expression] places fun _ => True :=
  (blames_of_reads reads_signature List.mem_cons_self).mono fun _ _ => trivial

theorem blames_clause (declared : Option (String × List Ty)) (places : List Position) :
    (clause declared).Blames [.signature, .expression] places fun _ => True := by
  have hhead : Area.signature ∈ [Area.signature, .expression] := by decide
  have hbody : Area.expression ∈ [Area.signature, .expression] := by decide
  refine (blames_of_reads reads_expectIdent hhead).bind fun found hfound => ?_
  -- a mismatch with the signature is blamed on the name, which was read before the body
  have hname : found.2 ∈ places := by
    obtain ⟨_, _, rfl, hplaces⟩ := hfound
    exact hplaces _ List.mem_cons_self
  refine (blames_of_reads reads_names hhead).bind fun params _ => ?_
  refine (blames_of_reads (reads_expect · _) hhead).bind fun _ _ => ?_
  refine (blames_of_reads reads_expr hbody).bind fun body _ => ?_
  refine (blames_of_reads reads_expectEnd hbody).bind fun _ _ => ?_
  cases hdecl : declare declared found.1 found.2 params body with
  | ok decl => exact blames_pure trivial
  | error d =>
    obtain ⟨harea, hpos⟩ := declare_error hdecl
    refine blames_throw ?_ ?_
    · rw [harea]
      exact hhead
    · rwa [hpos]

theorem blames_equation (places : List Position) :
    equation.Blames [.signature, .expression] places fun _ => True := by
  have hsigned (name : String) :
      (signature >>= fun types => clause (some (name, types))).Blames
        [.signature, .expression] places fun _ => True :=
    (blames_signature places).bind fun types _ => blames_clause (some (name, types)) places
  -- which of the two it is depends on the cursor
  have hequation (c : Cursor) : ∃ p : Parser Decl,
      p.Blames [.signature, .expression] places (fun _ => True) ∧ equation c = p c := by
    cases hname : signatureName? c with
    | none => exact ⟨_, blames_clause none places, equation_unsigned hname⟩
    | some name => exact ⟨_, hsigned name, equation_signed hname⟩
  constructor
  · intro c after decl hc hok
    obtain ⟨p, hp, heq⟩ := hequation c
    exact hp.ok hc (heq ▸ hok)
  · intro c after d hc herror
    obtain ⟨p, hp, heq⟩ := hequation c
    exact hp.error hc (heq ▸ herror)

/-! ## Blocks -/

/-- The areas that the text of a declaration of this form can be wrong in, besides its form. -/
def Form.areas : Form → List Area
  | .union => [.union]
  | .function | .const => [.signature, .expression]

namespace Block

theorem blames_grammar (form : Form) (places : List Position) :
    (grammar form).Blames form.areas places fun _ => True := by
  cases form with
  | union =>
    refine (blames_of_reads reads_union List.mem_cons_self).bind fun declared _ => ?_
    exact blames_pure trivial
  | function => exact blames_equation places
  | const => exact blames_equation places

/-- A block fails for its form, for its characters, or in an area that its form has and then at a
token or the end. -/
theorem read_eq_error {block : Block} {d : Diagnostic} (h : block.read = .error d) :
    formOf block.text (block.start + 1) = .error d ∨
    ∃ form, formOf block.text (block.start + 1) = .ok form ∧
      (scan block.text (block.start + 1) = .error d ∨
        ∃ found, scan block.text (block.start + 1) = .ok found ∧ d.area ∈ form.areas ∧
          d.pos ∈ (Cursor.ofScan found).places) := by
  unfold read at h
  rcases bind_eq_error h with hform | ⟨form, hform, hrest⟩
  · exact .inl hform
  · refine .inr ⟨form, hform, ?_⟩
    rcases bind_eq_error hrest with hscan | ⟨found, hscan, hparse⟩
    · exact .inl hscan
    · obtain ⟨after, herror⟩ := eq_error_of_outcome hparse
      exact .inr ⟨found, hscan, (blames_grammar form _).error rfl herror⟩

/-- A block fails for its form, for its characters, or in an area that its form has. -/
theorem area_of_read_error {block : Block} {d : Diagnostic} (h : block.read = .error d) :
    (formOf block.text (block.start + 1) = .error d ∧ d.area = .block) ∨
    ∃ form, formOf block.text (block.start + 1) = .ok form ∧ d.area ∈ .lexical :: form.areas := by
  rcases read_eq_error h with hform | ⟨form, hform, hscan | ⟨found, _, harea, _⟩⟩
  · exact .inl ⟨hform, area_of_classify_error hform⟩
  · refine .inr ⟨form, hform, ?_⟩
    rw [area_of_scan_error hscan]
    exact List.mem_cons_self
  · exact .inr ⟨form, hform, List.mem_cons_of_mem _ harea⟩

/-- Every failure is blamed on a definite part of the language. -/
theorem area_ne_general {block : Block} {d : Diagnostic} (h : block.read = .error d) :
    d.area ≠ .general := by
  rcases area_of_read_error h with ⟨_, harea⟩ | ⟨form, _, harea⟩
  · rw [harea]
    decide
  · intro hgeneral
    rw [hgeneral] at harea
    cases form <;> exact absurd harea (by decide)

end Block

end Polyglot
