import Polyglot.Proofs.Dialect.Literals
import Polyglot.Proofs.Expr.RoundTrip
import Polyglot.Proofs.Program.Totality
import Polyglot.Proofs.Text.Margin

/-!
# Rendering further to the right

The indent counter is read where a line starts, sometimes before and sometimes behind the part that
it is raised for. All the same it does nothing but move the text. Inside a line an expression is
rendered as at the left margin, with blanks behind every line feed (`Render.Hangs`). On lines of its
own it is rendered as at the left margin, with blanks before every line that is not empty
(`Render.Insets`).

Results:
1. `render_indents`: this holds in both slots, for everything that can be read.
2. `ofText_indented`: what the counter does to the text of an expression that was read.
-/

namespace Polyglot

open Text

/-! ## Parts of a text -/

theorem ne_empty_of_isPlainName {name : String} (h : isPlainName name) : name ≠ "" := by
  rintro rfl
  exact (isNamePart_of_isPlainName h).1 rfl

namespace Style

/-- A text that stands inside a line of the style: no line of it is empty, and the surface styles
have no line feed there. -/
structure Fits (style : Style) (text : String) : Prop where
  solid : Solid text
  isLine : ∀ member, style = .surface member → IsLine text

variable {style : Style}

theorem fits_line {text : String} (h : IsLine text ∧ text ≠ "") : style.Fits text :=
  ⟨.line h.1 h.2, fun _ _ => h.1⟩

theorem Fits.append {text text' : String} (h : style.Fits text) (h' : style.Fits text') :
    style.Fits (text ++ text') :=
  ⟨h.solid.append h'.solid, fun member heq => (h.isLine member heq).append (h'.isLine member heq)⟩

/-- A text between two fixed ones. -/
theorem Fits.between {text : String} (h : style.Fits text) {front back : String}
    (hfront : IsLine front ∧ front ≠ "") (hback : IsLine back ∧ back ≠ "") :
    style.Fits (front ++ text ++ back) :=
  ((fits_line hfront).append h).append (fits_line hback)

theorem fits_name {name : String} (h : isPlainName name) : style.Fits name :=
  fits_line ⟨isLine_name h, ne_empty_of_isPlainName h⟩

theorem fits_intercalate {separator : String} (hseparator : IsLine separator ∧ separator ≠ "")
    {texts : List String} (hne : texts ≠ []) (h : ∀ text ∈ texts, style.Fits text) :
    style.Fits (separator.intercalate texts) :=
  String.intercalate_of_append Fits.append (fits_line hseparator) hne h

theorem Fits.parenthesized {text : String} (h : style.Fits text) (condition : Bool) :
    style.Fits (parenthesized condition text) := by
  unfold Polyglot.parenthesized
  split
  · exact h.between (by decide) (by decide)
  · exact h

theorem hang_parenthesized (count : Nat) (condition : Bool) (text : String) :
    hang count (parenthesized condition text) = parenthesized condition (hang count text) := by
  unfold Polyglot.parenthesized
  split
  · simp (disch := decide) only [hang_append, hang_of_isLine]
  · rfl

/-! ## Putting parts together -/

/-- A way to put texts together: from texts that fit it makes one that fits, and blanks behind the
line feeds can be put in before or after. -/
structure Assembles (style : Style) (f : List String → String) : Prop where
  fits : ∀ {texts : List String}, (∀ text ∈ texts, style.Fits text) → style.Fits (f texts)
  hang : ∀ (count : Nat) (texts : List String), f (texts.map (hang count)) = hang count (f texts)

/-- The same for a single text. -/
structure Wraps (style : Style) (f : String → String) : Prop where
  fits : ∀ {text : String}, style.Fits text → style.Fits (f text)
  hang : ∀ (count : Nat) (text : String), f (hang count text) = hang count (f text)

theorem wraps_append {front : String} (hfront : IsLine front ∧ front ≠ "") :
    style.Wraps (front ++ ·) where
  fits h := (fits_line hfront).append h
  hang count text := by rw [hang_append, hang_of_isLine count hfront.1]

/-- A fixed text for no texts, and otherwise the texts between two brackets. -/
theorem assembles_bracketed {f : List String → String} (opening closing : String)
    (hnil : IsLine (f []) ∧ f [] ≠ "")
    (hcons : ∀ text texts, f (text :: texts) =
      opening ++ ", ".intercalate (text :: texts) ++ closing)
    (hopening : IsLine opening ∧ opening ≠ "") (hclosing : IsLine closing ∧ closing ≠ "") :
    style.Assembles f where
  fits := by
    intro texts h
    cases texts with
    | nil => exact fits_line hnil
    | cons text texts =>
      rw [hcons]
      exact (fits_intercalate (by decide) (List.cons_ne_nil _ _) h).between hopening hclosing
  hang := by
    intro count texts
    cases texts with
    | nil => exact (hang_of_isLine count hnil.1).symm
    | cons text texts =>
      rw [List.map_cons, hcons, hcons, hang_append, hang_append, hang_of_isLine count hopening.1,
        hang_of_isLine count hclosing.1, hang_intercalate count (by decide), List.map_cons]

theorem assembles_list (style : Style) : style.Assembles style.list := by
  refine assembles_bracketed "[ " " ]" ?_ (fun text texts => ?_) (by decide) (by decide)
  · rcases style with member | member <;> cases member <;> decide
  · rcases style with member | member <;> cases member <;> rfl

theorem assembles_record (style : Style) : style.Assembles style.record := by
  refine assembles_bracketed "\x7b " " \x7d" ?_ (fun text texts => ?_) (by decide) (by decide)
  · rcases style with member | member <;> cases member <;> decide
  · rcases style with member | member <;> cases member <;> rfl

/-- A tag behind which the fields stand; the surface styles leave out the brackets where there are
none. -/
theorem assembles_construct (style : Style) {tag : String} (htag : isPlainName tag) :
    style.Assembles (style.construct tag) := by
  have hrecord := assembles_record style
  have hline := isLine_name htag
  cases style with
  | script member =>
    constructor
    · intro texts h
      exact (((fits_name htag).append (fits_line (by decide))).append (hrecord.fits h)).append
        (fits_line (by decide))
    · intro count texts
      show tag ++ "(" ++ record (.script member) (texts.map (Text.hang count)) ++ ")" =
        Text.hang count (tag ++ "(" ++ record (.script member) texts ++ ")")
      simp (disch := first | decide | exact hline) only [hrecord.hang, hang_append, hang_of_isLine]
  | surface member =>
    constructor
    · intro texts h
      cases texts with
      | nil => exact fits_name htag
      | cons text texts =>
        exact ((fits_name htag).append (fits_line (by decide))).append (hrecord.fits h)
    · intro count texts
      cases texts with
      | nil => exact (hang_of_isLine count hline).symm
      | cons text texts =>
        show tag ++ " " ++ record (.surface member) ((text :: texts).map (Text.hang count)) =
          Text.hang count (tag ++ " " ++ record (.surface member) (text :: texts))
        simp (disch := first | decide | exact hline) only [hrecord.hang, hang_append,
          hang_of_isLine]

theorem arguments_fit {texts : List String} (h : ∀ text ∈ texts, style.Fits text)
    (args : List Expr) :
    ∀ text ∈ args.zipWith (fun arg text => parenthesized arg.needsArgumentParens text) texts,
      style.Fits text := by
  induction args generalizing texts with
  | nil => exact fun text htext => absurd htext List.not_mem_nil
  | cons arg args ih =>
    cases texts with
    | nil => exact fun text htext => absurd htext List.not_mem_nil
    | cons first texts =>
      rw [List.forall_mem_cons] at h
      exact List.forall_mem_cons.mpr ⟨h.1.parenthesized _, ih h.2⟩

theorem assembles_call (style : Style) {name : String} (hname : isPlainName name)
    (args : List Expr) : style.Assembles (style.call name args) := by
  have hline := isLine_name hname
  cases style with
  | script member =>
    have hopening : IsLine (name ++ "(") ∧ name ++ "(" ≠ "" :=
      ⟨hline.append (by decide), String.append_ne_empty (by decide)⟩
    refine assembles_bracketed (name ++ "(") ")" ?_ (fun _ _ => rfl) hopening (by decide)
    exact ⟨(hopening.1.append (by decide)).append (by decide), String.append_ne_empty (by decide)⟩
  | surface member =>
    constructor
    · intro texts h
      refine fits_intercalate (by decide) (List.cons_ne_nil _ _) ?_
      exact List.forall_mem_cons.mpr ⟨fits_name hname, arguments_fit h args⟩
    · intro count texts
      simp only [call, List.zipWith_map_right, hang_intercalate count (show IsLine " " by decide),
        List.map_cons, hang_of_isLine count hline, List.map_zipWith, hang_parenthesized]

theorem conditional_fits {test yes no : String} (htest : style.Fits test) (hyes : style.Fits yes)
    (hno : style.Fits no) : style.Fits (style.conditional test yes no) := by
  cases style with
  | script member =>
    exact (((htest.between (by decide) (by decide)).append hyes).append
      (fits_line (by decide))).append hno |>.append (fits_line (by decide))
  | surface member =>
    exact (((htest.between (by decide) (by decide)).append hyes).append
      (fits_line (by decide))).append hno |>.append (fits_line (by decide))

theorem hang_conditional (count : Nat) (test yes no : String) :
    hang count (style.conditional test yes no) =
      style.conditional (hang count test) (hang count yes) (hang count no) := by
  cases style <;> simp (disch := decide) only [conditional, hang_append, hang_of_isLine]

/-! ## Lines -/

/-- A text that stands on lines of its own: in the scripts none of them is empty. -/
def Stands (style : Style) (text : String) : Prop :=
  ∀ member, style = .script member → Solid text

/-- A text that fits into a line, as a whole body. -/
theorem statement_inset {text : String} (h : style.Fits text) :
    style.Stands (style.statement "" text) ∧ ∀ count,
      style.statement (blanks count) (hang count text) = inset count (style.statement "" text) := by
  have hsolid : Solid (style.statement "" text) := by
    cases style with
    | script member =>
      exact ((fits_line (by decide)).append h |>.append (fits_line (by decide))).solid
    | surface member =>
      rw [statement, String.empty_append]
      exact h.solid
  refine ⟨fun _ _ => hsolid, fun count => ?_⟩
  rw [hsolid.inset_eq]
  cases style with
  | script member =>
    simp (disch := decide) only [statement, hang_append, hang_of_isLine, String.append_assoc,
      String.empty_append]
  | surface member => rw [statement, statement, String.empty_append]

theorem script_branches_inset {member : Script} {test yes no : String}
    (htest : (script member).Fits test) (hyes : (script member).Stands yes)
    (hno : (script member).Stands no) :
    ∃ text, (script member).Stands text ∧ ∀ count,
      (script member).branches (blanks count) (hang count test) (inset count yes) (inset count no) =
        .ok (inset count text) := by
  have hhead : Solid ("if (" ++ test ++ ") \x7b") := (htest.between (by decide) (by decide)).solid
  have hmiddle : Solid "\x7d else \x7b" := .line (by decide) (by decide)
  have hlast : Solid "\x7d" := .line (by decide) (by decide)
  refine ⟨"if (" ++ test ++ ") \x7b" ++ "\n" ++ (yes ++ "\n" ++ ("\x7d else \x7b" ++ "\n" ++
    (no ++ "\n" ++ "\x7d"))), fun _ _ => ?_, fun count => congrArg Except.ok ?_⟩
  · exact .newline hhead
      (.newline (hyes member rfl) (.newline hmiddle (.newline (hno member rfl) hlast)))
  · rw [inset_newline, inset_newline, inset_newline, inset_newline, hhead.inset_eq,
      hmiddle.inset_eq, hlast.inset_eq]
    simp (disch := decide) only [hang_append, hang_of_isLine]
    apply String.toList_injective
    simp

/-- The line before the second branch is empty in one of the surfaces, and stays empty. -/
theorem surface_branches_inset {member : Surface} (hmember : member ≠ .bare)
    {test yes no : String} (htest : (surface member).Fits test) :
    ∃ text, ∀ count,
      (surface member).branches (blanks count) (hang count test) (inset count yes)
        (inset count no) = .ok (inset count text) := by
  have hhead : Solid ("if " ++ test ++ " then") := (htest.between (by decide) (by decide)).solid
  have helse : Solid "else" := .line (by decide) (by decide)
  have hlower : ∀ count, inset count ("else" ++ "\n" ++ no) =
      blanks count ++ "else" ++ "\n" ++ inset count no := by
    intro count
    rw [inset_newline, helse.inset_eq, hang_of_isLine count (by decide)]
  rcases Surface.eq_of_ne_bare hmember with rfl | rfl
  · refine ⟨"if " ++ test ++ " then" ++ "\n" ++ (yes ++ "\n" ++ ("else" ++ "\n" ++ no)),
      fun count => congrArg Except.ok ?_⟩
    rw [inset_newline, inset_newline, hlower, hhead.inset_eq]
    simp (disch := decide) only [hang_append, hang_of_isLine]
    apply String.toList_injective
    simp
  · refine ⟨"if " ++ test ++ " then" ++ "\n" ++ (yes ++ "\n" ++ ("" ++ "\n" ++
      ("else" ++ "\n" ++ no))), fun count => congrArg Except.ok ?_⟩
    rw [inset_newline, inset_newline, inset_newline, hlower, hhead.inset_eq,
      show inset count "" = "" from rfl]
    simp (disch := decide) only [hang_append, hang_of_isLine]
    apply String.toList_injective
    simp

/-- A conditional on lines of its own, from a test inside a line and branches on theirs. -/
theorem branches_inset (hstyle : style.decided = true) {test yes no : String}
    (htest : style.Fits test) (hyes : style.Stands yes) (hno : style.Stands no) :
    ∃ text, style.Stands text ∧ ∀ count,
      style.branches (blanks count) (hang count test) (inset count yes) (inset count no) =
        .ok (inset count text) := by
  cases style with
  | script member => exact script_branches_inset htest hyes hno
  | surface member =>
    obtain ⟨text, htext⟩ := surface_branches_inset (of_decide_eq_true hstyle) htest
    refine ⟨text, ?_, htext⟩
    rintro _ ⟨⟩

end Style

/-! ## Renderings -/

namespace Render

/-- Inside a line: at every indent the same text, with blanks behind the line feeds. -/
def Hangs (style : Style) (part : Render String) : Prop :=
  ∃ text, style.Fits text ∧ ∀ count : Nat, part count = .ok (hang (4 * count) text) count

/-- On lines of its own: at every indent the same text, with blanks before the lines. -/
def Insets (style : Style) (part : Render String) : Prop :=
  ∃ text, style.Stands text ∧ ∀ count : Nat, part count = .ok (inset (4 * count) text) count

/-- What is rendered one step further in is another text, moved by the outer indent. -/
theorem Insets.deeper {style : Style} {part : Render String} (h : Insets style part) :
    ∃ text, style.Stands text ∧ ∀ count : Nat,
      part (count + 1 : Int) = .ok (inset (4 * count) text) (count + 1 : Int) := by
  obtain ⟨text, hstands, hyields⟩ := h
  refine ⟨inset 4 text, fun member heq => (hstands member heq).inset 4, fun count => ?_⟩
  rw [inset_inset]
  exact hyields (count + 1)

end Render

open Render

theorem indentText_eq_blanks (count : Nat) : indentText count = blanks (4 * count) := by
  apply String.toList_injective
  rw [indentText_toList, blanks, String.toList_ofList, Int.toNat_natCast]

/-! ## Expressions -/

section Expressions

variable {style : Style}

/-- A text that is put together inside a line. -/
theorem line_hangs {e : Expr} {parts : List Expr} {f : List String → String} (texts : List String)
    (text : String) (hplan : (Dialect.styled style).plan .inline e = .ok (.line parts f))
    (hparts : ∀ count : Nat, List.Forall₂
      (fun part text => (Dialect.styled style).render .inline part count = .ok text count)
      parts (texts.map (hang (4 * count))))
    (hfits : style.Fits text)
    (htext : ∀ count, f (texts.map (hang count)) = hang count text) :
    Hangs style ((Dialect.styled style).render .inline e) := by
  refine ⟨text, hfits, fun count => ?_⟩
  rw [← htext]
  exact Dialect.render_ok hplan (hparts count) .nil rfl

/-- A text that is made of the texts of parts, which all fit into a line. -/
theorem assembled_hangs {e : Expr} {parts : List Expr} {f : List String → String}
    (hplan : (Dialect.styled style).plan .inline e = .ok (.line parts f))
    (hparts : ∀ part ∈ parts, Hangs style ((Dialect.styled style).render .inline part))
    (hf : style.Assembles f) : Hangs style ((Dialect.styled style).render .inline e) := by
  have htexts : ∃ texts : List String, (∀ text ∈ texts, style.Fits text) ∧ ∀ count : Nat,
      List.Forall₂ (fun part text => (Dialect.styled style).render .inline part count = .ok text count)
        parts (texts.map (hang (4 * count))) := by
    clear hplan
    induction parts with
    | nil => exact ⟨[], fun text htext => absurd htext List.not_mem_nil, fun count => .nil⟩
    | cons part parts ih =>
      rw [List.forall_mem_cons] at hparts
      obtain ⟨text, hfits, hyields⟩ := hparts.1
      obtain ⟨texts, hall, hrest⟩ := ih hparts.2
      exact ⟨text :: texts, List.forall_mem_cons.mpr ⟨hfits, hall⟩,
        fun count => .cons (hyields count) (hrest count)⟩
  obtain ⟨texts, hfits, hyields⟩ := htexts
  exact line_hangs texts _ hplan hyields (hf.fits hfits) fun count => hf.hang count texts

/-- A text without parts. -/
theorem fixed_hangs {e : Expr} {text : String} (h : IsLine text ∧ text ≠ "")
    (hplan : (Dialect.styled style).plan .inline e = .ok (.line [] fun _ => text)) :
    Hangs style ((Dialect.styled style).render .inline e) :=
  line_hangs [] text hplan (fun _ => .nil) (Style.fits_line h)
    fun count => (hang_of_isLine count h.1).symm

/-- An expression that fits into a line, on lines of its own. -/
theorem placed_insets {e : Expr} (h : Hangs style ((Dialect.styled style).render .inline e))
    (hplan : (Dialect.styled style).plan .ownLines e =
      (Dialect.styled style).placed .ownLines ((Dialect.styled style).plan .inline e)) :
    Insets style ((Dialect.styled style).render .ownLines e) := by
  obtain ⟨text, hfits, hyields⟩ := h
  obtain ⟨hstands, hinset⟩ := Style.statement_inset hfits
  refine ⟨_, hstands, fun count => ?_⟩
  rw [← hinset, ← indentText_eq_blanks]
  exact Dialect.render_statement hplan (hyields count)

theorem cond_hangs {test yes no : Expr}
    (htest : Hangs style ((Dialect.styled style).render .inline test))
    (hyes : Hangs style ((Dialect.styled style).render .inline yes))
    (hno : Hangs style ((Dialect.styled style).render .inline no)) :
    Hangs style ((Dialect.styled style).render .inline (.cond test yes no)) := by
  obtain ⟨testText, htestFits, htest⟩ := htest
  obtain ⟨yesText, hyesFits, hyes⟩ := hyes
  obtain ⟨noText, hnoFits, hno⟩ := hno
  refine line_hangs [testText, yesText, noText] (style.conditional testText yesText noText) rfl
    (fun count => .cons (htest count) (.cons (hyes count) (.cons (hno count) .nil))) ?_ fun count => ?_
  · exact Style.conditional_fits htestFits hyesFits hnoFits
  · exact (Style.hang_conditional count testText yesText noText).symm

theorem cond_insets (hstyle : style.decided = true) {test yes no : Expr}
    (htest : Hangs style ((Dialect.styled style).render .inline test))
    (hyes : Insets style ((Dialect.styled style).render .ownLines yes))
    (hno : Insets style ((Dialect.styled style).render .ownLines no)) :
    Insets style ((Dialect.styled style).render .ownLines (.cond test yes no)) := by
  obtain ⟨testText, hfits, htest⟩ := htest
  obtain ⟨yesText, hyesStands, hyes⟩ := hyes.deeper
  obtain ⟨noText, hnoStands, hno⟩ := hno.deeper
  obtain ⟨text, hstands, hbranches⟩ := Style.branches_inset hstyle hfits hyesStands hnoStands
  refine ⟨text, hstands, fun count => ?_⟩
  refine Dialect.render_ok rfl (.cons (htest count) .nil)
    (.cons (hyes count) (.cons (hno count) .nil)) ?_
  rw [indentText_eq_blanks]
  exact hbranches (4 * count)

theorem lambdaParams_isLine (member : Script) {params : List String}
    (h : ∀ param ∈ params, isPlainName param) : IfOk (member.lambdaParams params) IsLine := by
  refine (ifOk_mapM_all (Q := IsLine) fun param hparam => ?_).map fun texts htexts => ?_
  · have hline := isLine_name (h param hparam)
    cases member with
    | javascript => exact ifOk_ok hline
    | typescript => exact ifOk_ok (hline.append (by decide))
    | bare => exact ifOk_error _
  · exact isLine_intercalate (by decide) htexts

/-- The body of a script's lambda stands on lines of its own, one step further in. -/
theorem script_lambda_hangs {member : Script} (hmember : member ≠ .bare) {params : List String}
    (hparams : ∀ param ∈ params, isPlainName param) {body : Expr}
    (hbody : Insets (.script member) ((Dialect.styled (.script member)).render .ownLines body)) :
    Hangs (.script member)
      ((Dialect.styled (.script member)).render .inline (.lambda params body)) := by
  obtain ⟨text, hstands, hbody⟩ := hbody.deeper
  obtain ⟨names, hnames⟩ := Script.lambdaParams_ok hmember params
  have hline : IsLine ("function(" ++ names ++ ") \x7b") :=
    (IsLine.append (by decide) (lambdaParams_isLine member hparams names hnames)).append (by decide)
  have hlast : IsLine "\x7d" ∧ "\x7d" ≠ "" := by decide
  have hlower : Solid (text ++ "\n" ++ "\x7d") :=
    .newline (hstands member rfl) (.line hlast.1 hlast.2)
  refine ⟨"function(" ++ names ++ ") \x7b" ++ "\n" ++ (text ++ "\n" ++ "\x7d"), ⟨?_, ?_⟩,
    fun count => ?_⟩
  · exact .newline (.line hline (String.append_ne_empty (by decide))) hlower
  · rintro _ ⟨⟩
  · have hmoved : hang (4 * count) ("function(" ++ names ++ ") \x7b" ++ "\n" ++
        (text ++ "\n" ++ "\x7d")) = "function(" ++ names ++ ") \x7b\n" ++
          inset (4 * count) text ++ "\n" ++ blanks (4 * count) ++ "\x7d" := by
      rw [hlower.hang_below hline, inset_newline, inset_of_isLine _ hlast.1 hlast.2]
      apply String.toList_injective
      simp
    rw [hmoved, ← indentText_eq_blanks]
    exact Dialect.render_ok (Dialect.plan_lambda hnames body) .nil (.cons (hbody count) .nil) rfl

theorem wraps_lambdaText {params : List String} (h : ∀ param ∈ params, isPlainName param) :
    style.Wraps (Surface.lambdaText params) := by
  have hnames : IsLine (" ".intercalate params) :=
    isLine_intercalate (by decide) fun param hparam => isLine_name (h param hparam)
  exact Style.wraps_append ⟨(IsLine.append (by decide) hnames).append (by decide),
    String.append_ne_empty (by decide)⟩

theorem lambda_hangs (hstyle : style.decided = true) {params : List String}
    (hparams : ∀ param ∈ params, isPlainName param) {body : Expr}
    (hinline : Hangs style ((Dialect.styled style).render .inline body))
    (hlines : Insets style ((Dialect.styled style).render .ownLines body)) :
    Hangs style ((Dialect.styled style).render .inline (.lambda params body)) := by
  cases style with
  | script member => exact script_lambda_hangs (of_decide_eq_true hstyle) hparams hlines
  | surface member =>
    have hlambda : (Style.surface member).Wraps (Surface.lambdaText params) :=
      wraps_lambdaText hparams
    obtain ⟨text, hfits, hyields⟩ := hinline
    refine line_hangs [text] _ rfl (fun count => .cons (hyields count) .nil)
      ((hlambda.fits hfits).parenthesized true) fun count => ?_
    rw [Style.hang_parenthesized, ← hlambda.hang]
    rfl

/-- On a line of its own a surface leaves out the parentheses of a lambda. -/
theorem lambda_insets (hstyle : style.decided = true) {params : List String}
    (hparams : ∀ param ∈ params, isPlainName param) {body : Expr}
    (hinline : Hangs style ((Dialect.styled style).render .inline body))
    (hlines : Insets style ((Dialect.styled style).render .ownLines body)) :
    Insets style ((Dialect.styled style).render .ownLines (.lambda params body)) := by
  cases style with
  | script member =>
    exact placed_insets (script_lambda_hangs (of_decide_eq_true hstyle) hparams hlines) rfl
  | surface member =>
    have hlambda : (Style.surface member).Wraps (Surface.lambdaText params) :=
      wraps_lambdaText hparams
    obtain ⟨text, hfits, hyields⟩ := hinline
    obtain ⟨hstands, hinset⟩ := Style.statement_inset (hlambda.fits hfits)
    refine ⟨_, hstands, fun count => ?_⟩
    rw [← hinset, ← hlambda.hang, ← indentText_eq_blanks]
    exact Dialect.render_ok rfl (.cons (hyields count) .nil) .nil rfl

theorem operator_isLine (dialect : Dialect) (op : BinaryOp) :
    IsLine (dialect.operator op) ∧ dialect.operator op ≠ "" := by
  unfold Dialect.operator
  split
  · decide
  · decide
  · decide
  · cases op <;> decide

theorem binary_hangs {op : BinaryOp} {left right : Expr}
    (hleft : Hangs style ((Dialect.styled style).render .inline left))
    (hright : Hangs style ((Dialect.styled style).render .inline right)) :
    Hangs style ((Dialect.styled style).render .inline (.binary op left right)) := by
  obtain ⟨leftText, hleftFits, hleft⟩ := hleft
  obtain ⟨rightText, hrightFits, hright⟩ := hright
  have hop := operator_isLine (.styled style) op
  have hspace : style.Fits " " := Style.fits_line (by decide)
  refine line_hangs [leftText, rightText]
    (operandText .left left op.precedence leftText ++ " " ++ (Dialect.styled style).operator op ++
      " " ++ operandText .right right op.precedence rightText) rfl
    (fun count => .cons (hleft count) (.cons (hright count) .nil)) ?_ fun count => ?_
  · exact ((((hleftFits.parenthesized _).append hspace).append (Style.fits_line hop)).append
      hspace).append (hrightFits.parenthesized _)
  · simp (disch := first | decide | exact hop.1) only [hang_append, hang_of_isLine, operandText,
      Style.hang_parenthesized]
    rfl

theorem word_isLine (dialect : Dialect) {body : String} (h : IsLine body ∧ body ≠ "") :
    IsLine (dialect.word body) ∧ dialect.word body ≠ "" := by
  unfold Dialect.word
  split
  · decide
  · decide
  · exact h

theorem numeral_isLine {digits : String} (h : isNumeral digits.toList = true) :
    IsLine digits ∧ digits ≠ "" := by
  refine ⟨not_mem_spelling (l := .number digits) h, ?_⟩
  rintro rfl
  cases h

theorem wraps_field {name : String} (h : isPlainName name) : style.Wraps (style.field name) := by
  have hmark : IsLine style.fieldMark ∧ style.fieldMark ≠ "" := by
    rcases style with member | member <;> cases member <;> decide
  exact Style.wraps_append ⟨(isLine_name h).append hmark.1, String.append_ne_empty hmark.2⟩

/-- Fields are put together from their contents. -/
theorem assembles_fields {fields : List (String × Expr)} (hnames : ∀ f ∈ fields, isPlainName f.1)
    {f : List String → String} (hf : style.Assembles f) :
    style.Assembles fun texts => f (style.fields fields texts) where
  fits := by
    intro texts h
    refine hf.fits ?_
    clear hf
    induction fields generalizing texts with
    | nil => exact fun text htext => absurd htext List.not_mem_nil
    | cons field fields ih =>
      rw [List.forall_mem_cons] at hnames
      cases texts with
      | nil => exact fun text htext => absurd htext List.not_mem_nil
      | cons text texts =>
        rw [List.forall_mem_cons] at h
        exact List.forall_mem_cons.mpr ⟨(wraps_field hnames.1).fits h.1, ih hnames.2 h.2⟩
  hang := by
    intro count texts
    rw [← hf.hang]
    refine congrArg f ?_
    clear hf
    induction fields generalizing texts with
    | nil => rfl
    | cons field fields ih =>
      rw [List.forall_mem_cons] at hnames
      cases texts with
      | nil => rfl
      | cons text texts =>
        have hfield : style.field field.1 (hang count text) = hang count (style.field field.1 text) :=
          (wraps_field hnames.1).hang count text
        exact congrArg₂ List.cons hfield (ih hnames.2 texts)

/-- What can be read is rendered alike at every indent, in either slot. -/
theorem render_indents (hstyle : style.decided = true) {e : Expr} (h : e.Proper) :
    Hangs style ((Dialect.styled style).render .inline e) ∧
      Insets style ((Dialect.styled style).render .ownLines e) := by
  have hboth : ∀ {e : Expr}, Hangs style ((Dialect.styled style).render .inline e) →
      (Dialect.styled style).plan .ownLines e =
        (Dialect.styled style).placed .ownLines ((Dialect.styled style).plan .inline e) →
      Hangs style ((Dialect.styled style).render .inline e) ∧
        Insets style ((Dialect.styled style).render .ownLines e) :=
    fun hpart hplan => ⟨hpart, placed_insets hpart hplan⟩
  induction h with
  | name hname _ =>
    have hline := And.intro (isLine_name hname) (ne_empty_of_isPlainName hname)
    exact hboth (fixed_hangs (word_isLine _ hline) rfl) rfl
  | number hdigits => exact hboth (fixed_hangs (word_isLine _ (numeral_isLine hdigits)) rfl) rfl
  | @negative digits hdigits =>
    obtain ⟨hline, hne⟩ := numeral_isLine hdigits
    have hsigned : IsLine ("-" ++ digits) ∧ "-" ++ digits ≠ "" :=
      ⟨IsLine.append (by decide) hline, String.append_ne_empty hne⟩
    exact hboth (fixed_hangs (word_isLine _ hsigned) rfl) rfl
  | @str body hbody =>
    have hline : IsLine ("\"" ++ body ++ "\"") :=
      (IsLine.append (by decide) (not_mem_of_isStringBody hbody)).append (by decide)
    exact hboth (fixed_hangs ⟨hline, String.append_ne_empty (by decide)⟩ rfl) rfl
  | list _ ih =>
    refine hboth (assembled_hangs rfl (fun e he => (ih e he).1) ?_) rfl
    exact Style.assembles_list style
  | record hnames _ ih =>
    refine hboth (assembled_hangs rfl (List.forall_mem_map.mpr fun f hf => (ih f hf).1) ?_) rfl
    exact assembles_fields hnames (Style.assembles_record style)
  | cond _ _ _ htest hyes hno =>
    exact ⟨cond_hangs htest.1 hyes.1 hno.1, cond_insets hstyle htest.1 hyes.2 hno.2⟩
  | lambda _ hparams _ ih =>
    exact ⟨lambda_hangs hstyle hparams ih.1 ih.2, lambda_insets hstyle hparams ih.1 ih.2⟩
  | construct htag _ hnames _ ih =>
    refine hboth (assembled_hangs rfl (List.forall_mem_map.mpr fun f hf => (ih f hf).1) ?_) rfl
    exact assembles_fields hnames (Style.assembles_construct style htag)
  | @call name args hname _ _ _ ih =>
    refine hboth (assembled_hangs rfl (fun e he => (ih e he).1) ?_) rfl
    exact Style.assembles_call style hname args
  | binary _ _ hleft hright => exact hboth (binary_hangs hleft.1 hright.1) rfl

end Expressions

/-! ## Expressions of a text -/

/-- An expression that was read is rendered at every indent. Inside a line its text is the one at
the left margin with as many blanks behind every line feed, and the surface languages have no line
feed there. On lines of its own its text is the one at the left margin with as many blanks before
every line that is not empty. -/
theorem ofText_indented {source : String} {e : Expr} (h : Expr.ofText source = .ok e)
    (target : Target) :
    ∃ inline lines, target.dialect.expr e 0 = .ok inline 0 ∧ target.dialect.body e 0 = .ok lines 0 ∧
      (∀ count : Nat,
        target.dialect.expr e count = .ok (hang (4 * count) inline) count ∧
          target.dialect.body e count = .ok (inset (4 * count) lines) count) ∧
      (target = .derw ∨ target = .elm → '\n' ∉ inline.toList) := by
  obtain ⟨style, hdialect, hstyle⟩ := target.dialect_decided
  obtain ⟨⟨inline, hfits, hinline⟩, lines, _, hlines⟩ :=
    render_indents hstyle (Grammar.proper_of_ofText h)
  rw [hdialect]
  refine ⟨inline, lines, ?_, ?_, fun count => ⟨hinline count, hlines count⟩, fun htarget => ?_⟩
  · have hmargin := hinline 0
    rwa [hang_zero] at hmargin
  · have hmargin := hlines 0
    rwa [inset_zero] at hmargin
  · have hsurface : ∃ member, style = .surface member := by
      rcases htarget with rfl | rfl
      · cases hdialect
        exact ⟨.derw, rfl⟩
      · cases hdialect
        exact ⟨.elm, rfl⟩
    obtain ⟨member, hmember⟩ := hsurface
    exact hfits.isLine member hmember

/-- The lambda in the test of a conditional takes the indent of the line that the test stands in. -/
theorem ofText_indented_test :
    Expr.ofText "if f (\\x -> x) then 1 else 2" =
        .ok (.cond (.call "f" [.lambda ["x"] (.value "x")]) (.value "1") (.value "2")) ∧
      Target.js.dialect.body
          (.cond (.call "f" [.lambda ["x"] (.value "x")]) (.value "1") (.value "2")) 0 =
        .ok (unlines ["if (f(function(x) \x7b", "    return x;", "\x7d)) \x7b", "    return 1;",
          "\x7d else \x7b", "    return 2;", "\x7d"]) 0 ∧
      Target.js.dialect.body
          (.cond (.call "f" [.lambda ["x"] (.value "x")]) (.value "1") (.value "2")) 1 =
        .ok (unlines ["    if (f(function(x) \x7b", "        return x;", "    \x7d)) \x7b",
          "        return 1;", "    \x7d else \x7b", "        return 2;", "    \x7d"]) 1 := by
  have hsource : Expr.ofText "if f (\\x -> x) then 1 else 2" =
      .ok (.cond (.call "f" [.lambda ["x"] (.value "x")]) (.value "1") (.value "2")) := by
    cbv
  have hmargin : Target.js.dialect.body
      (.cond (.call "f" [.lambda ["x"] (.value "x")]) (.value "1") (.value "2")) 0 =
        .ok (unlines ["if (f(function(x) \x7b", "    return x;", "\x7d)) \x7b", "    return 1;",
          "\x7d else \x7b", "    return 2;", "\x7d"]) 0 := by
    rfl
  obtain ⟨inline, lines, _, hlines, hcount, _⟩ := ofText_indented hsource .js
  cases hmargin.symm.trans hlines
  exact ⟨hsource, hmargin, (hcount 1).2⟩

end Polyglot
