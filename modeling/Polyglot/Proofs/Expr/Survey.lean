import Polyglot.Proofs.Expr.Unchained

/-!
# Chained comparisons cannot be read

A comparison whose right operand is a comparison is written as lexemes that the grammar does not
derive. To show this, `survey` walks over lexemes and looks for two comparison signs with nothing
between them that starts another expression, bracket by bracket.

Results:
1. `passes_of_derives`: lexemes with a derivation pass the survey.
2. `surveyed`: a written expression passes it exactly if it is unchained.
3. `not_derives_lexemes`, `not_derives_bodyLexemes`: a chained comparison is written as lexemes
   without a derivation, inside a line and on lines of its own.
-/

namespace Polyglot.Grammar

open Polyglot.Expr

/-! ## Surveying comparisons -/

/-- What a lexeme means for a chain of comparisons. -/
inductive Part where
  | comparison
  | opening
  | closing
  /-- Another expression starts behind the lexeme. -/
  | divider
  | other
deriving DecidableEq, Repr

def Part.ofLexeme : Lexeme → Part
  | .symbol .equalEqual | .symbol .notEqual | .symbol .less | .symbol .lessEq
  | .symbol .greater | .symbol .greaterEq => .comparison
  | .symbol .openParen | .symbol .openBracket | .symbol .openBrace => .opening
  | .symbol .closeParen | .symbol .closeBracket | .symbol .closeBrace => .closing
  | .symbol .andAnd | .symbol .barBar | .symbol .comma | .symbol .colon | .symbol .arrow => .divider
  | .keyword .ifWord | .keyword .thenWord | .keyword .elseWord => .divider
  | _ => .other

/-- Whether no comparison sign follows another one. `seen` says if there was one since the last
divider, and `outer` keeps the same for the brackets around. -/
def survey (seen : Bool) (outer : List Bool) : List Lexeme → Bool
  | [] => true
  | l :: ls =>
      match Part.ofLexeme l, outer with
      | .comparison, _ => !seen && survey true outer ls
      | .opening, _ => survey false (seen :: outer) ls
      | .closing, [] => survey false [] ls
      | .closing, before :: outer => survey before outer ls
      | .divider, _ => survey false outer ls
      | .other, _ => survey seen outer ls

/-- Behind a divider the lexemes pass the survey exactly if `good` holds, and leave it in some
state. -/
def Passes (ls : List Lexeme) (good : Bool) : Prop :=
  ∃ seen, ∀ outer rest, survey false outer (ls ++ rest) = (good && survey seen outer rest)

/-- The lexemes pass the survey exactly if `good` holds, and leave its state alone. -/
def Skipped (ls : List Lexeme) (good : Bool) : Prop :=
  ∀ seen outer rest, survey seen outer (ls ++ rest) = (good && survey seen outer rest)

theorem Skipped.passes {ls : List Lexeme} {good : Bool} (h : Skipped ls good) : Passes ls good :=
  ⟨false, h false⟩

theorem skipped_nil : Skipped [] true :=
  fun _ _ _ => rfl

theorem Skipped.append {ls ms : List Lexeme} {good good' : Bool} (h : Skipped ls good)
    (h' : Skipped ms good') : Skipped (ls ++ ms) (good && good') := by
  intro seen outer rest
  rw [List.append_assoc, h, h', Bool.and_assoc]

theorem survey_other {l : Lexeme} (hl : Part.ofLexeme l = .other) (seen : Bool) (outer : List Bool)
    (ls : List Lexeme) : survey seen outer (l :: ls) = survey seen outer ls := by
  simp only [survey, hl]

theorem survey_divider {l : Lexeme} (hl : Part.ofLexeme l = .divider) (seen : Bool)
    (outer : List Bool) (ls : List Lexeme) :
    survey seen outer (l :: ls) = survey false outer ls := by
  simp only [survey, hl]

theorem survey_comparison {l : Lexeme} (hl : Part.ofLexeme l = .comparison) (seen : Bool)
    (outer : List Bool) (ls : List Lexeme) :
    survey seen outer (l :: ls) = (!seen && survey true outer ls) := by
  simp only [survey, hl]

theorem skipped_other {l : Lexeme} (hl : Part.ofLexeme l = .other) : Skipped [l] true :=
  fun seen outer rest => by rw [List.singleton_append, survey_other hl, Bool.true_and]

/-- Whatever stands in brackets is surveyed on its own. -/
theorem skipped_brackets {opening closing : Lexeme} (hopening : Part.ofLexeme opening = .opening)
    (hclosing : Part.ofLexeme closing = .closing) {ls : List Lexeme} {good : Bool}
    (h : Passes ls good) : Skipped (opening :: (ls ++ [closing])) good := by
  intro seen outer rest
  obtain ⟨last, h⟩ := h
  have hopen : survey seen outer (opening :: (ls ++ [closing] ++ rest)) =
      survey false (seen :: outer) (ls ++ [closing] ++ rest) := by
    simp only [survey, hopening]
  have hclose : survey last (seen :: outer) (closing :: rest) = survey seen outer rest := by
    simp only [survey, hclosing]
  rw [List.cons_append, hopen, List.append_assoc, h, List.singleton_append, hclose]

theorem passes_nil : Passes [] true :=
  skipped_nil.passes

theorem Passes.divided {ls ms : List Lexeme} {good good' : Bool} (h : Passes ls good) {l : Lexeme}
    (hl : Part.ofLexeme l = .divider) (h' : Passes ms good') :
    Passes (ls ++ l :: ms) (good && good') := by
  obtain ⟨_, h⟩ := h
  obtain ⟨last, h'⟩ := h'
  refine ⟨last, fun outer rest => ?_⟩
  rw [List.append_assoc, h, List.cons_append, survey_divider hl, h', Bool.and_assoc]

theorem passes_comparison {ls ms : List Lexeme} {good good' : Bool} (h : Skipped ls good)
    {l : Lexeme} (hl : Part.ofLexeme l = .comparison) (h' : Skipped ms good') :
    Passes (ls ++ l :: ms) (good && good') := by
  refine ⟨true, fun outer rest => ?_⟩
  rw [List.append_assoc, h, List.cons_append, survey_comparison hl, h', Bool.and_assoc]
  rfl

/-! ## Derived lexemes pass the survey -/

theorem skipped_idents (names : List String) : Skipped (names.map Lexeme.ident) true := by
  induction names with
  | nil => exact skipped_nil
  | cons name names ih => exact (skipped_other rfl).append ih

theorem passes_lambda {names : List String} {ls : List Lexeme} {good : Bool} (h : Passes ls good) :
    Passes (lambdaLexemes names ls) good := by
  have hhead : Skipped ([.symbol .backslash] ++ names.map Lexeme.ident) true :=
    (skipped_other rfl).append (skipped_idents names)
  exact hhead.passes.divided rfl h

theorem passes_cond {ls ms ns : List Lexeme} {test yes no : Bool} (htest : Passes ls test)
    (hyes : Passes ms yes) (hno : Passes ns no) :
    Passes (condLexemes ls ms ns) (test && (yes && no)) :=
  passes_nil.divided rfl (htest.divided rfl (hyes.divided rfl hno))

theorem skipped_many {α : Type} {ls : List Lexeme} {as : List α}
    (h : Many (fun us _ => Skipped us true) ls as) : Skipped ls true := by
  induction h with
  | nil => exact skipped_nil
  | cons hfirst _ ih => exact hfirst.append ih

theorem passes_manyAfter {α : Type} {ls ms : List Lexeme} {as : List α} (hls : Passes ls true)
    (h : Many (After (· = .symbol .comma) fun us _ => Passes us true) ms as) :
    Passes (ls ++ ms) true := by
  induction h generalizing ls with
  | nil =>
    rw [List.append_nil]
    exact hls
  | cons hfirst _ ih =>
    cases hfirst with
    | mk hcomma hpass =>
      subst hcomma
      rw [← List.append_assoc]
      exact ih (hls.divided rfl hpass)

theorem skipped_bracketed {α : Type} {opening closing : Symbol}
    (hopening : Part.ofLexeme (.symbol opening) = .opening)
    (hclosing : Part.ofLexeme (.symbol closing) = .closing) {P : List Lexeme → α → Prop}
    {ls : List Lexeme} {as : List α} (h : Bracketed opening closing P ls as)
    (hP : ∀ us a, P us a → us.length < ls.length → Passes us true) : Skipped ls true := by
  cases h with
  | nil => exact skipped_brackets hopening hclosing passes_nil
  | @cons us vs a as hfirst hrest =>
    have hlength : us.length < (Lexeme.symbol opening :: (us ++ (vs ++ [.symbol closing]))).length ∧
        vs.length < (Lexeme.symbol opening :: (us ++ (vs ++ [.symbol closing]))).length := by
      grind
    rw [← List.append_assoc]
    refine skipped_brackets hopening hclosing (passes_manyAfter (hP us a hfirst hlength.1)
      (hrest.mono fun ws b hafter hws => ?_))
    cases hafter with
    | mk hcomma hphrase =>
      rw [List.length_cons] at hws
      exact .mk hcomma (hP _ b hphrase (by omega))

theorem passes_labelled {ls : List Lexeme} {good : Bool} (name : String) (h : Passes ls good) :
    Passes (.ident name :: .symbol .colon :: ls) good :=
  (skipped_other (l := .ident name) rfl).passes.divided rfl h

theorem skipped_fields {ls : List Lexeme} {fields : List (String × Expr)}
    (h : Bracketed .openBrace .closeBrace (Labelled (Derives .expr)) ls fields)
    (ih : ∀ {ms e}, Derives .expr ms e → ms.length < ls.length → Passes ms true) :
    Skipped ls true := by
  refine skipped_bracketed rfl rfl h fun us f hf hlength => ?_
  cases hf with
  | mk hcontent =>
    rw [List.length_cons, List.length_cons] at hlength
    exact passes_labelled _ (ih hcontent (by omega))

/-- A derivation has no chained comparisons. From sums down there is not even one outside
brackets. -/
theorem passes_of_derives {rule : Rule} {ls : List Lexeme} {e : Expr} (h : Derives rule ls e) :
    Passes ls true ∧ (rule.rank ≤ 3 → Skipped ls true) := by
  refine derives_induction
    (motive := fun rule ls _ => Passes ls true ∧ (rule.rank ≤ 3 → Skipped ls true))
    (fun {rule ls e} h ih => ?_) h
  have hskip : ∀ {ms}, Skipped ms true → Passes ms true ∧ (rule.rank ≤ 3 → Skipped ms true) :=
    fun h => ⟨h.passes, fun _ => h⟩
  cases h with
  | cond htest hyes hno =>
    exact ⟨passes_cond (ih htest (.inl (by grind))).1 (ih hyes (.inl (by grind))).1
      (ih hno (.inl (by grind))).1, fun hrank => absurd hrank (by decide)⟩
  | lambda hbody =>
    exact ⟨passes_lambda (ih hbody (.inl (by grind))).1,
      fun hrank => absurd hrank (by decide)⟩
  | or h | orOne h | andOne h | compareOne h =>
    exact ⟨(ih h (.inr ⟨rfl, by decide⟩)).1, fun hrank => absurd hrank (by decide)⟩
  | orMore hl hr | andMore hl hr =>
    exact ⟨(ih hl (.inl (by simp))).1.divided rfl (ih hr (.inl (by grind))).1,
      fun hrank => absurd hrank (by decide)⟩
  | @compareTwo op _ _ _ _ hop hl hr =>
    have hsign : Part.ofLexeme (.symbol op.symbol) = .comparison := by
      cases op <;> first | rfl | exact absurd hop (by decide)
    exact ⟨passes_comparison ((ih hl (.inl (by simp))).2 (by decide)) hsign
      ((ih hr (.inl (by grind))).2 (by decide)), fun hrank => absurd hrank (by decide)⟩
  | @sumMore op _ _ _ _ hop hl hr | @productMore op _ _ _ _ hop hl hr =>
    have hsign : Part.ofLexeme (.symbol op.symbol) = .other := by
      cases op <;> first | rfl | exact absurd hop (by decide)
    exact hskip (((ih hl (.inl (by simp))).2 (by decide)).append
      ((skipped_other hsign).append ((ih hr (.inl (by grind))).2 (by decide))))
  | sumOne h | productOne h | operand h | argument h =>
    exact hskip ((ih h (.inr ⟨rfl, by decide⟩)).2 (by decide))
  | constructWith _ h =>
    have hfields := skipped_fields h fun h' hlength => (ih h' (.inl (Nat.lt_succ_of_lt hlength))).1
    exact hskip ((skipped_other rfl).append hfields)
  | call _ harg hargs =>
    have hfirst := (ih harg (.inl (by grind))).2 (by decide)
    have hrest := skipped_many (hargs.mono fun us a hus hlength =>
      (ih hus (.inl (by grind))).2 (by decide))
    exact hskip ((skipped_other rfl).append (hfirst.append hrest))
  | negative => exact hskip ((skipped_other rfl).append (skipped_other rfl))
  | construct _ | value _ | name | number | string => exact hskip (skipped_other rfl)
  | list h =>
    exact hskip (skipped_bracketed rfl rfl h fun us a hus hlength => (ih hus (.inl hlength)).1)
  | record h => exact hskip (skipped_fields h fun h' hlength => (ih h' (.inl hlength)).1)
  | paren h => exact hskip (skipped_brackets rfl rfl (ih h (.inl (by grind))).1)

/-! ## Written comparisons in the survey -/

theorem passes_intercalate {α : Type} {f : α → List Lexeme} {good : α → Bool} {items : List α}
    (h : ∀ a ∈ items, Passes (f a) (good a)) :
    Passes ([.symbol .comma].intercalate (items.map f)) (items.all good) := by
  induction items with
  | nil => exact passes_nil
  | cons first rest ih =>
    have hfirst := h first List.mem_cons_self
    have hrest := ih fun a ha => h a (List.mem_cons_of_mem first ha)
    cases rest with
    | nil =>
      rw [List.map_singleton, List.intercalate_singleton, List.all_cons, List.all_nil,
        Bool.and_true]
      exact hfirst
    | cons second rest =>
      rw [List.map_cons, List.map_cons, List.intercalate_cons_cons, List.append_assoc,
        List.all_cons]
      exact hfirst.divided rfl hrest

theorem skipped_inBrackets {opening closing : Symbol}
    (hopening : Part.ofLexeme (.symbol opening) = .opening)
    (hclosing : Part.ofLexeme (.symbol closing) = .closing) {α : Type} {f : α → List Lexeme}
    {good : α → Bool} {items : List α} (h : ∀ a ∈ items, Passes (f a) (good a)) :
    Skipped (inBrackets opening closing (items.map f)) (items.all good) :=
  skipped_brackets hopening hclosing (passes_intercalate h)

theorem skipped_fieldLexemes {fields : List (String × Expr)}
    (h : ∀ f ∈ fields, Passes f.2.lexemes f.2.unchained) :
    Skipped (inBrackets .openBrace .closeBrace (fieldLexemes fields)) (unchainedFields fields) := by
  rw [fieldLexemes_eq_map, unchainedFields_eq_all]
  exact skipped_inBrackets rfl rfl fun f hf => passes_labelled f.1 (h f hf)

/-- What the survey finds in a written expression. -/
structure Surveyed (e : Expr) : Prop where
  passes : Passes e.lexemes e.unchained
  skipped : 3 < e.precedence → Skipped e.lexemes e.unchained
  /-- A comparison behind a comparison is noticed. -/
  again : e.isComparison = true → ∀ outer rest, survey true outer (e.lexemes ++ rest) = false

theorem Surveyed.of_skipped {e : Expr} (h : Skipped e.lexemes e.unchained)
    (hcompare : e.isComparison = false) : Surveyed e := by
  refine ⟨h.passes, fun _ => h, fun hagain => ?_⟩
  rw [hcompare] at hagain
  cases hagain

theorem passes_parensIf {ls : List Lexeme} {good : Bool} (h : Passes ls good) (condition : Bool) :
    Passes (parensIf condition ls) good := by
  cases condition with
  | false => exact h
  | true => exact (skipped_brackets rfl rfl h).passes

theorem Surveyed.skipped_left {e : Expr} (h : Surveyed e) {parent : Nat} (hparent : 3 ≤ parent) :
    Skipped (parensIf (needsParens .left e.precedence parent) e.lexemes) e.unchained := by
  cases hparens : needsParens .left e.precedence parent with
  | false => exact h.skipped (Nat.lt_of_le_of_lt hparent (lt_of_needsParens_left hparens))
  | true => exact skipped_brackets rfl rfl h.passes

theorem Surveyed.skipped_right {e : Expr} (h : Surveyed e) {parent : Nat} (hparent : 3 ≤ parent)
    (hcompare : parent = 3 → e.isComparison = false) :
    Skipped (parensIf (needsParens .right e.precedence parent) e.lexemes) e.unchained := by
  cases hparens : needsParens .right e.precedence parent with
  | true => exact skipped_brackets rfl rfl h.passes
  | false =>
    refine h.skipped ?_
    have hle := le_of_needsParens_right hparens
    have hne : parent = 3 → e.precedence ≠ 3 := by
      intro hthree hprecedence
      have hboth := hcompare hthree
      rw [isComparison_of_precedence hprecedence] at hboth
      cases hboth
    omega

theorem surveyed_comparison {op : BinaryOp} (hop : op.isComparison = true) {left right : Expr}
    (hleft : Surveyed left) (hright : Surveyed right) : Surveyed (.binary op left right) := by
  have hthree : op.precedence = 3 := beq_iff_eq.mp hop
  have hsign : Part.ofLexeme (.symbol op.symbol) = .comparison := by
    cases op <;> first | rfl | cases hop
  have hfirst := hleft.skipped_left (Nat.le_of_eq hthree.symm)
  refine ⟨?_, fun hlt => ?_, fun _ outer rest => ?_⟩
  · cases hcompare : right.isComparison with
    | false =>
      have hsecond := hright.skipped_right (Nat.le_of_eq hthree.symm) fun _ => hcompare
      have hall := passes_comparison hfirst hsign hsecond
      rw [unchained, hop, hcompare]
      exact hall
    | true =>
      have hprecedence : right.precedence = op.precedence := by
        cases right with
        | binary op' _ _ => exact (beq_iff_eq.mp hcompare).trans hthree.symm
        | _ => cases hcompare
      have hplain : parensIf (needsParens .right right.precedence op.precedence) right.lexemes =
          right.lexemes := by
        rw [hprecedence, needsParens, if_pos rfl]
        rfl
      refine ⟨false, fun outer rest => ?_⟩
      rw [lexemes, hplain, List.append_assoc, hfirst, List.cons_append, survey_comparison hsign,
        hright.again hcompare, unchained, hop, hcompare]
      simp
  · rw [precedence, hthree] at hlt
    exact absurd hlt (Nat.lt_irrefl 3)
  · rw [lexemes, List.append_assoc, hfirst, List.cons_append, survey_comparison hsign]
    simp

theorem surveyed_binary (op : BinaryOp) {left right : Expr} (hleft : Surveyed left)
    (hright : Surveyed right) : Surveyed (.binary op left right) := by
  cases hop : op.isComparison with
  | true => exact surveyed_comparison hop hleft hright
  | false =>
    have hgood : (Expr.binary op left right).unchained = (left.unchained && right.unchained) := by
      rw [unchained, hop]
      rfl
    by_cases hlevel : 3 < op.precedence
    · have hsign : Part.ofLexeme (.symbol op.symbol) = .other := by
        cases op <;> first | rfl | exact absurd hlevel (by decide)
      refine .of_skipped ?_ hop
      rw [hgood]
      exact (hleft.skipped_left (Nat.le_of_lt hlevel)).append ((skipped_other hsign).append
        (hright.skipped_right (Nat.le_of_lt hlevel) fun hthree => absurd hlevel (by omega)))
    · have hsign : Part.ofLexeme (.symbol op.symbol) = .divider := by
        cases op <;> first | rfl | exact absurd (by decide) hlevel | cases hop
      refine ⟨?_, fun hlt => absurd hlt hlevel, fun hcompare => ?_⟩
      · rw [hgood]
        exact (passes_parensIf hleft.passes _).divided hsign (passes_parensIf hright.passes _)
      · rw [isComparison, hop] at hcompare
        cases hcompare

theorem skipped_arguments {args : List Expr} (h : ∀ e ∈ args, Surveyed e) :
    Skipped (argumentLexemes args).flatten (unchainedAll args) := by
  induction args with
  | nil => exact skipped_nil
  | cons arg args ih =>
    refine Skipped.append ?_ (ih fun e he => h e (List.mem_cons_of_mem arg he))
    have harg := h arg List.mem_cons_self
    cases hparens : arg.needsArgumentParens with
    | true => exact skipped_brackets rfl rfl harg.passes
    | false =>
      refine harg.skipped ?_
      cases arg with
      | binary _ _ _ => cases hparens
      | _ => exact (by decide : 3 < 10)

/-- Every written expression is surveyed as it should be. -/
theorem surveyed {e : Expr} (h : e.Proper) : Surveyed e := by
  induction h with
  | name hname _ =>
    refine .of_skipped ?_ rfl
    rw [lexemes, wordLexemes_name hname]
    exact skipped_other rfl
  | number hdigits =>
    refine .of_skipped ?_ rfl
    rw [lexemes, wordLexemes_number hdigits]
    exact skipped_other rfl
  | negative _ =>
    refine .of_skipped ?_ rfl
    rw [lexemes, wordLexemes_negative]
    exact (skipped_other rfl).append (skipped_other rfl)
  | str _ => exact .of_skipped (skipped_other rfl) rfl
  | list _ ih =>
    refine .of_skipped ?_ rfl
    rw [lexemes, lexemesAll_eq_map, unchained, unchainedAll_eq_all]
    exact skipped_inBrackets rfl rfl fun e he => (ih e he).passes
  | record _ _ ih => exact .of_skipped (skipped_fieldLexemes fun f hf => (ih f hf).passes) rfl
  | cond _ _ _ ihtest ihyes ihno =>
    exact .of_skipped
      (skipped_brackets rfl rfl (passes_cond ihtest.passes ihyes.passes ihno.passes)) rfl
  | lambda _ _ _ ih => exact .of_skipped (skipped_brackets rfl rfl (passes_lambda ih.passes)) rfl
  | @construct tag fields _ _ _ _ ih =>
    refine .of_skipped ?_ rfl
    cases fields with
    | nil => exact skipped_other rfl
    | cons f fields =>
      exact (skipped_other rfl).append (skipped_fieldLexemes fun f hf => (ih f hf).passes)
  | call _ _ _ _ ih => exact .of_skipped ((skipped_other rfl).append (skipped_arguments ih)) rfl
  | binary _ _ ihleft ihright => exact surveyed_binary _ ihleft ihright

theorem passes_bodyLexemes {e : Expr} (h : e.Proper) : Passes e.bodyLexemes e.unchained := by
  induction h with
  | cond htest _ _ _ ihyes ihno => exact passes_cond (surveyed htest).passes ihyes ihno
  | lambda _ _ hbody _ => exact passes_lambda (surveyed hbody).passes
  | name hname hlower => exact (surveyed (.name hname hlower)).passes
  | number hdigits => exact (surveyed (.number hdigits)).passes
  | negative hdigits => exact (surveyed (.negative hdigits)).passes
  | str hbody => exact (surveyed (.str hbody)).passes
  | list hitems _ => exact (surveyed (.list hitems)).passes
  | record hnames hfields _ => exact (surveyed (.record hnames hfields)).passes
  | construct htag hupper hnames hfields _ =>
    exact (surveyed (.construct htag hupper hnames hfields)).passes
  | call hname hlower hne hargs _ => exact (surveyed (.call hname hlower hne hargs)).passes
  | binary hleft hright _ _ => exact (surveyed (.binary hleft hright)).passes

theorem not_derives_of_passes {ls : List Lexeme} (h : Passes ls false) (e : Expr) :
    ¬ Derives .expr ls e := by
  intro hderives
  obtain ⟨seen, hpass⟩ := (passes_of_derives hderives).1
  obtain ⟨seen', hfail⟩ := h
  have hgood := hpass [] []
  rw [hfail [] []] at hgood
  cases hgood

/-- An expression with a chained comparison is written as lexemes that have no derivation. -/
theorem not_derives_lexemes {e : Expr} (h : e.Proper) (hchained : e.unchained = false)
    (e' : Expr) : ¬ Derives .expr e.lexemes e' := by
  have hpasses := (surveyed h).passes
  rw [hchained] at hpasses
  exact not_derives_of_passes hpasses e'

theorem not_derives_bodyLexemes {e : Expr} (h : e.Proper) (hchained : e.unchained = false)
    (e' : Expr) : ¬ Derives .expr e.bodyLexemes e' := by
  have hpasses := passes_bodyLexemes h
  rw [hchained] at hpasses
  exact not_derives_of_passes hpasses e'

end Polyglot.Grammar
