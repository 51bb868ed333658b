import Polyglot.Proofs.Block.Agreement

/-!
# What the area of a diagnostic says

The areas that a block can be wrong in follow from its form, and the form can be asked for on its
own. An equation is wrong as an expression only behind its equals sign: what stands before it, types
included, is read as a part of the signature (`head_of_equation_error`).
-/

namespace Polyglot

namespace Parser

variable {α : Type} {area : Area} {P : List Token → α → Prop}

theorem Reads.pos_mem_ahead {p : Parser α} {c after : Cursor} {d : Diagnostic}
    (h : p.Reads area c P) (hp : p c = .error d after) : d.pos ∈ c.ahead := by
  obtain ⟨_, ts, hspan, hpos⟩ := h.of_error hp
  rw [hspan.ahead_eq]
  rcases hpos with hpos | ⟨t, ht, hpos⟩
  · rw [hpos]
    exact List.mem_append_right _ after.mark_mem_ahead
  · rw [hpos]
    exact List.mem_append_left _ (List.mem_map_of_mem ht)

end Parser

namespace Grammar

open Polyglot.Parser

/-- The tokens of an equation before its equals sign: a signature or none, and then the name and the
parameters. -/
inductive DerivesHead : List Token → Prop
  | plain {words : List Token} {name : String} {params : List String} :
      words.map Token.lexeme = (name :: params).map Lexeme.ident → DerivesHead words
  | signed {signed words : List Token} {declared name : String} {types : List Ty}
      {params : List String} : DerivesSignature signed declared types →
      words.map Token.lexeme = (name :: params).map Lexeme.ident → DerivesHead (signed ++ words)

/-- The equals sign of an equation is the first one of its text. -/
theorem DerivesHead.ne_equals {ts : List Token} (h : DerivesHead ts) :
    ∀ t ∈ ts, t.lexeme ≠ .symbol .equals := by
  have hwords {words : List Token} {names : List String}
      (hnames : words.map Token.lexeme = names.map Lexeme.ident) :
      ∀ t ∈ words, t.lexeme ≠ .symbol .equals := by
    intro t ht hequals
    have hmem : t.lexeme ∈ names.map Lexeme.ident := hnames ▸ List.mem_map_of_mem ht
    rw [hequals] at hmem
    obtain ⟨_, _, hident⟩ := List.mem_map.mp hmem
    cases hident
  cases h with
  | plain hnames => exact hwords hnames
  | signed hsigned hnames =>
    refine List.forall_mem_append.mpr ⟨fun t ht hequals => ?_, hwords hnames⟩
    have hpart := isSignaturePart_of_signature hsigned t ht
    rw [hequals] at hpart
    exact absurd hpart (by decide)

/-- The tokens behind the equals sign can be wrong as an expression; that what they say differs from
the signature is a fault of the signature. -/
theorem pos_of_clauseBody_error {declared : Option (String × List Ty)} {name : String}
    {pos : Position} {params : List String} {c after : Cursor} {d : Diagnostic}
    (h : clauseBody declared name pos params c = .error d after) (harea : d.area = .expression) :
    d.pos ∈ c.ahead := by
  rcases eq_error_of_bind h with h₁ | ⟨body, c₁, h₁, h⟩
  · exact (reads_expr c).pos_mem_ahead h₁
  obtain ⟨_, hspan, _⟩ := (reads_expr c).of_ok h₁
  rcases eq_error_of_bind h with h₂ | ⟨_, c₂, h₂, h⟩
  · rw [hspan.ahead_eq]
    exact List.mem_append_right _ ((reads_expectEnd c₁).pos_mem_ahead h₂)
  cases hdecl : declare declared name pos params body with
  | ok decl =>
    rw [hdecl] at h
    cases h
  | error d' =>
    rw [hdecl] at h
    cases h
    cases (declare_error hdecl).1.symm.trans harea

theorem head_of_clause_error {declared : Option (String × List Ty)} {c after : Cursor}
    {d : Diagnostic} (h : clause declared c = .error d after) (harea : d.area = .expression) :
    ∃ words equals rest name params, c.rest = words ++ equals :: rest ∧
      words.map Token.lexeme = (name :: params).map Lexeme.ident ∧
      equals.lexeme = .symbol .equals ∧ d.pos ∈ rest.map Token.pos ++ [c.finish] := by
  rcases eq_error_of_bind h with h₁ | ⟨found, c₁, h₁, h⟩
  · cases ((reads_expectIdent c).of_error h₁).1.symm.trans harea
  obtain ⟨_, hspan₁, rfl⟩ := (reads_expectIdent c).of_ok h₁
  rcases eq_error_of_bind h with h₂ | ⟨params, c₂, h₂, h⟩
  · cases ((reads_names c₁).of_error h₂).1.symm.trans harea
  obtain ⟨words, hspan₂, hwords⟩ := (reads_names c₁).of_ok h₂
  rcases eq_error_of_bind h with h₃ | ⟨_, c₃, h₃, h⟩
  · cases ((reads_expect c₂ _).of_error h₃).1.symm.trans harea
  obtain ⟨_, hspan₃, equals, rfl, hequals⟩ := (reads_expect c₂ _).of_ok h₃
  have hspan := (hspan₁.trans hspan₂).trans hspan₃
  refine ⟨[⟨.ident found.1, found.2⟩] ++ words, equals, c₃.rest, found.1, params, ?_, ?_, hequals,
    ?_⟩
  · rw [hspan.rest, List.append_assoc]
    rfl
  · rw [List.map_append, hwords]
    rfl
  · rw [← hspan.finish]
    exact pos_of_clauseBody_error h harea

/-- An equation that is wrong as an expression is right up to its equals sign, and the place that
the diagnostic names stands behind that. -/
theorem head_of_equation_error {c after : Cursor} {d : Diagnostic} (h : equation c = .error d after)
    (harea : d.area = .expression) :
    ∃ head equals rest, c.rest = head ++ equals :: rest ∧ DerivesHead head ∧
      equals.lexeme = .symbol .equals ∧ d.pos ∈ rest.map Token.pos ++ [c.finish] := by
  cases hname : signatureName? c with
  | none =>
    rw [equation_unsigned hname] at h
    obtain ⟨words, equals, rest, _, _, hrest, hwords, hequals, hpos⟩ := head_of_clause_error h harea
    exact ⟨words, equals, rest, hrest, .plain hwords, hequals, hpos⟩
  | some name =>
    rw [equation_signed hname] at h
    rcases eq_error_of_bind h with h₁ | ⟨types, c₁, h₁, h⟩
    · cases ((reads_signature c).of_error h₁).1.symm.trans harea
    obtain ⟨_, signed, hspan, hsigned⟩ := derivesSignature_of_ok hname h₁
    obtain ⟨words, equals, rest, _, _, hrest, hwords, hequals, hpos⟩ := head_of_clause_error h harea
    refine ⟨signed ++ words, equals, rest, ?_, .signed hsigned hwords, hequals, ?_⟩
    · rw [hspan.rest, hrest, List.append_assoc]
    · rwa [← hspan.finish]

end Grammar

namespace Block

open Grammar Polyglot.Parser

/-- Whether a text has a form does not depend on the number of its first line. -/
theorem formOf_eq_error {text : String} {line : Int} {d : Diagnostic}
    (h : formOf text line = .error d) (line' : Int) : ∃ d', formOf text line' = .error d' := by
  cases hform : formOf text line' with
  | ok form => cases h.symm.trans (formOf_eq_ok hform line)
  | error d' => exact ⟨d', rfl⟩

/-- A block is of no form exactly if reading it says so. -/
theorem area_eq_block_iff (block : Block) (line : Int) :
    (∃ d, block.read = .error d ∧ d.area = .block) ↔ ∃ d, formOf block.text line = .error d := by
  constructor
  · rintro ⟨d, hread, harea⟩
    rcases area_of_read_error hread with ⟨hform, _⟩ | ⟨form, _, hareas⟩
    · exact formOf_eq_error hform line
    · rw [harea] at hareas
      cases form <;> exact absurd hareas (by decide)
  · rintro ⟨d, hform⟩
    obtain ⟨d', hform'⟩ := formOf_eq_error hform (block.start + 1)
    refine ⟨d', ?_, area_of_classify_error hform'⟩
    unfold read
    rw [hform']
    rfl

theorem area_mem_of_read {block : Block} {line : Int} {form : Form} {d : Diagnostic}
    (hform : formOf block.text line = .ok form) (h : block.read = .error d) :
    d.area ∈ .lexical :: form.areas := by
  have hform' := formOf_eq_ok hform (block.start + 1)
  rcases area_of_read_error h with ⟨herror, _⟩ | ⟨form', hok, hareas⟩
  · cases hform'.symm.trans herror
  · cases hform'.symm.trans hok
    exact hareas

theorem expression_error {block : Block} {line : Int} {form : Form} {d : Diagnostic}
    (hform : formOf block.text line = .ok form) (hunion : form ≠ .union)
    (h : block.read = .error d) (harea : d.area = .expression) :
    ∃ found head equals rest, scan block.text (block.start + 1) = .ok found ∧
      found.tokens = head ++ equals :: rest ∧ DerivesHead head ∧
      equals.lexeme = .symbol .equals ∧ d.pos ∈ rest.map Token.pos ++ [found.finish] := by
  have hform' := formOf_eq_ok hform (block.start + 1)
  unfold read at h
  rcases Polyglot.bind_eq_error h with hnone | ⟨form', hsome, h⟩
  · cases hform'.symm.trans hnone
  cases hform'.symm.trans hsome
  rcases Polyglot.bind_eq_error h with hscan | ⟨found, hscan, hparse⟩
  · cases (area_of_scan_error hscan).symm.trans harea
  obtain ⟨after, hparse⟩ := eq_error_of_outcome hparse
  have hequation : equation (Cursor.ofScan found) = .error d after := by
    cases form with
    | union => exact absurd rfl hunion
    | function => exact hparse
    | const => exact hparse
  obtain ⟨head, equals, rest, hrest, hhead, hequals, hpos⟩ := head_of_equation_error hequation harea
  exact ⟨found, head, equals, rest, hscan, hrest, hhead, hequals, hpos⟩

/-- The area of a diagnostic says which part of a block is wrong: its form, if the text has none;
the characters, or the declaration, if it is a union; the characters, what stands before the equals
sign, or what stands behind it, if it is an equation. -/
theorem read_error_areas (block : Block) (line : Int) :
    ((∃ d, block.read = .error d ∧ d.area = .block) ↔ ∃ d, formOf block.text line = .error d) ∧
    (formOf block.text line = .ok .union → ∀ d, block.read = .error d →
      d.area = .lexical ∨ d.area = .union) ∧
    (∀ form, form = .function ∨ form = .const → formOf block.text line = .ok form →
      ∀ d, block.read = .error d →
        (d.area = .lexical ∨ d.area = .signature ∨ d.area = .expression) ∧
        (d.area = .expression →
          ∃ found head equals rest, scan block.text (block.start + 1) = .ok found ∧
            found.tokens = head ++ equals :: rest ∧ DerivesHead head ∧
            equals.lexeme = .symbol .equals ∧ (∀ t ∈ head, t.lexeme ≠ .symbol .equals) ∧
            (d.pos ∈ rest.map Token.pos ∨ d.pos = found.finish))) := by
  refine ⟨area_eq_block_iff block line, fun hform d h => ?_, fun form hequation hform d h => ?_⟩
  · simpa [Form.areas] using area_mem_of_read hform h
  · have hunion : form ≠ .union := by rcases hequation with rfl | rfl <;> decide
    constructor
    · have hareas := area_mem_of_read hform h
      rcases hequation with rfl | rfl <;> simpa [Form.areas] using hareas
    · intro harea
      obtain ⟨found, head, equals, rest, hscan, htokens, hhead, hequals, hpos⟩ :=
        expression_error hform hunion h harea
      exact ⟨found, head, equals, rest, hscan, htokens, hhead, hequals, hhead.ne_equals,
        by simpa using hpos⟩

/-- Behind a signature that is right, a closing parenthesis is found in the body. -/
theorem read_error_areas_closing :
    formOf "f : a -> b\nf x =\n    x )" 7 = .ok .function ∧
    read ⟨some .function, 0, ["f : a -> b", "f x =", "    x )"]⟩ =
      .error ⟨.expression, .unexpected (some (.symbol .closeParen)), ⟨3, 7⟩⟩ ∧
    ∃ found head equals rest, scan "f : a -> b\nf x =\n    x )" 1 = .ok found ∧
      found.tokens = head ++ equals :: rest ∧ DerivesHead head ∧
      equals.lexeme = .symbol .equals ∧ (∀ t ∈ head, t.lexeme ≠ .symbol .equals) ∧
      (⟨3, 7⟩ ∈ rest.map Token.pos ∨ ⟨3, 7⟩ = found.finish) := by
  have hform : formOf "f : a -> b\nf x =\n    x )" 7 = .ok .function := by decide +kernel
  have hread : read ⟨some .function, 0, ["f : a -> b", "f x =", "    x )"]⟩ =
      .error ⟨.expression, .unexpected (some (.symbol .closeParen)), ⟨3, 7⟩⟩ := by decide +kernel
  refine ⟨hform, hread, ?_⟩
  have hareas := read_error_areas ⟨some .function, 0, ["f : a -> b", "f x =", "    x )"]⟩ 7
  exact (hareas.2.2 .function (.inl rfl) hform _ hread).2 rfl

end Block

end Polyglot
