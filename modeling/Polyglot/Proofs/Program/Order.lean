import Polyglot.Proofs.Block.Whole
import Polyglot.Proofs.Program.Stacked

/-!
# The order of declarations

Texts that are one block each can be put below each other in any order. The blocks of the whole are
the texts, each at a line of its own, so reordering moves them and nothing else. What a block is
blamed for does not depend on the order either: reading it looks at no other block, and the scope is
asked for names only, which are the same in every order.

Results:
1. `blocks_paragraphs`: the blocks of texts below each other.
2. `Scope.check_congr`: scopes with the same names have the same issues.
3. `ofText_reordered`: declarations and errors in two orders.
-/

namespace Polyglot

/-! ## Paragraphs -/

namespace Text

/-- Texts below each other, with a blank line between each two of them. -/
def paragraphs (texts : List String) : String :=
  "\n\n".intercalate texts

theorem paragraphs_cons_cons (first second : String) (rest : List String) :
    paragraphs (first :: second :: rest) = stacked first (paragraphs (second :: rest)) :=
  String.intercalate_cons_cons

end Text

namespace Block

/-- Texts as blocks, the first of which starts at the line `start`. A blank line stands behind each
of them. -/
def wholes (start : Int) : List String → List Block
  | [] => []
  | text :: rest => whole start text :: wholes (start + Text.room text) rest

theorem wholes_moved (count start : Int) (texts : List String) :
    (wholes start texts).map (moved count) = wholes (start + count) texts := by
  induction texts generalizing start with
  | nil => rfl
  | cons text rest ih =>
    rw [wholes, wholes, List.map_cons, ih, Int.add_right_comm]
    rfl

theorem map_lines_wholes (start : Int) (texts : List String) :
    (wholes start texts).map Block.lines = texts.map Text.lines := by
  induction texts generalizing start with
  | nil => rfl
  | cons text rest ih =>
    rw [wholes, List.map_cons, List.map_cons, ih]
    rfl

theorem exists_of_getElem?_wholes (start : Int) {texts : List String} {i : Nat} {text : String}
    (h : texts[i]? = some text) : ∃ line, (wholes start texts)[i]? = some (whole line text) := by
  induction texts generalizing start i with
  | nil => cases h
  | cons first rest ih =>
    cases i with
    | zero =>
      obtain rfl : first = text := Option.some.inj h
      exact ⟨start, rfl⟩
    | succ i => exact ih _ h

theorem blocks_paragraphs {texts : List String} (h : ∀ text ∈ texts, IsWhole text) :
    ofText (Text.paragraphs texts) = wholes 0 texts := by
  induction texts with
  | nil => rfl
  | cons first rest ih =>
    rw [List.forall_mem_cons] at h
    cases rest with
    | nil => exact h.1.ofText_eq
    | cons second rest =>
      rw [Text.paragraphs_cons_cons, blocks_stacked, h.1.ofText_eq, ih h.2, wholes_moved]
      rfl

end Block

/-! ## Scopes -/

namespace Scope

theorem contains_congr {scope scope' : Scope} (h : ∀ name, name ∈ scope.names ↔ name ∈ scope'.names)
    (name : String) : scope.contains name = scope'.contains name :=
  decide_eq_decide.mpr (h name)

theorem checkNamed_congr {scope scope' : Scope}
    (h : ∀ name, name ∈ scope.names ↔ name ∈ scope'.names) (types : List Ty) :
    scope.checkNamed types = scope'.checkNamed types := by
  simp only [checkNamed, contains_congr h]

/-- Only the names in a scope matter, not their order. -/
theorem check_congr {scope scope' : Scope} (h : ∀ name, name ∈ scope.names ↔ name ∈ scope'.names)
    (decl : Decl) : scope.check decl = scope'.check decl := by
  cases decl with
  | union union =>
    have htag : scope.checkTag union.name = scope'.checkTag union.name := by
      funext bound tag
      rw [checkTag, checkTag, checkNamed_congr h]
    rw [check, check, htag]
  | function equation | const equation => exact congrArg Except.ok (checkNamed_congr h _)
  | unknown node => rfl

theorem mem_names_of_perm {decls decls' : List Decl} (h : decls.Perm decls') (name : String) :
    name ∈ (ofDecls decls).names ↔ name ∈ (ofDecls decls').names := by
  have hnames : (ofDecls decls).names.Perm (ofDecls decls').names :=
    (h.flatMap_right declaredBy).append_left builtins
  exact hnames.mem_iff

end Scope

/-! ## Complaints -/

/-- What is wrong with a block, wherever it stands. -/
inductive Complaint where
  /-- It cannot be read; places are counted from the block's own first line. -/
  | unread (diagnostic : Diagnostic)
  /-- Its declaration does not resolve. -/
  | unresolved (issue : Issue)
deriving DecidableEq, Repr

/-- The message about a block that starts at the line `start`. It names a line only if the block
cannot be read. -/
def Complaint.message (start : Int) : Complaint → String
  | .unread diagnostic => (diagnostic.moved start).message
  | .unresolved issue => issue.message

namespace Block

/-- What is wrong with the lines of a text. -/
def complaint? (scope : Scope) (text : String) : Option Complaint :=
  match (whole 0 text).read with
  | .ok decl => (scope.issue? decl).map .unresolved
  | .error diagnostic => some (.unread diagnostic)

theorem filterMap_wholes (start : Int) (texts : List String) :
    (wholes start texts).filterMap (fun block => block.read.toOption) =
      texts.filterMap fun text => (whole 0 text).read.toOption := by
  induction texts generalizing start with
  | nil => rfl
  | cons text rest ih =>
    have hread : (whole start text).read.toOption = (whole 0 text).read.toOption := by
      rw [read_whole]
      cases (whole 0 text).read <;> rfl
    rw [wholes, List.filterMap_cons, List.filterMap_cons, hread, ih]

/-- The message about a block tells where the block stands, and is the same otherwise. -/
theorem problem?_whole (scope : Scope) (start : Int) (text : String) :
    (whole start text).problem? scope =
      (complaint? scope text).map (Complaint.message start) := by
  rw [problem?, read_whole, complaint?]
  cases (whole 0 text).read with
  | error diagnostic => rfl
  | ok decl =>
    show (scope.issue? decl).map Issue.message =
      ((scope.issue? decl).map Complaint.unresolved).map (Complaint.message start)
    rw [Option.map_map]
    rfl

theorem complaint?_congr {scope scope' : Scope}
    (h : ∀ name, name ∈ scope.names ↔ name ∈ scope'.names) (text : String) :
    complaint? scope text = complaint? scope' text := by
  unfold complaint?
  cases (whole 0 text).read with
  | error diagnostic => rfl
  | ok decl =>
    dsimp only
    rw [Scope.issue?, Scope.issue?, Scope.check_congr h]

end Block

/-! ## Programs -/

namespace Program

open Block

/-- The declarations of texts below each other: those that can be read, in the order of the
texts. -/
theorem body_paragraphs {texts : List String} (h : ∀ text ∈ texts, IsWhole text) :
    (ofText (Text.paragraphs texts)).body =
      texts.filterMap fun text => (whole 0 text).read.toOption := by
  rw [body_eq, blocks_paragraphs h, filterMap_wholes]

/-- A text among others is reported for its complaint, and for nothing else. -/
theorem report_whole_iff {texts : List String} (h : ∀ text ∈ texts, IsWhole text) {i : Nat}
    {start : Int} {text : String} (hblock : (wholes 0 texts)[i]? = some (whole start text))
    (message : String) :
    (whole start text).report message ∈ (ofText (Text.paragraphs texts)).errors ↔
      ∃ complaint ∈ complaint? (Scope.ofDecls (ofText (Text.paragraphs texts)).body) text,
        message = complaint.message start := by
  have hmem : whole start text ∈ Block.ofText (Text.paragraphs texts) := by
    rw [blocks_paragraphs h]
    exact List.mem_of_getElem? hblock
  rw [report_mem_errors_iff hmem, problem?_whole, Option.map_eq_some_iff]
  exact exists_congr fun complaint => and_congr Iff.rfl eq_comm

/-- Texts that are one block each, below each other in two orders. In either order the blocks are
the texts and the declarations are those of the texts that can be read. A text has one complaint or
none, whatever the order, and it is reported for that complaint only; the messages differ in the
line at which the text starts. -/
theorem ofText_reordered {texts texts' : List String} (hwhole : ∀ text ∈ texts, IsWhole text)
    (hperm : texts'.Perm texts) :
    (Block.ofText (Text.paragraphs texts')).map Block.lines = texts'.map Text.lines ∧
    (ofText (Text.paragraphs texts')).body =
      texts'.filterMap (fun text => (whole 0 text).read.toOption) ∧
    ∀ (i i' : Nat) (text : String), texts[i]? = some text → texts'[i']? = some text →
      ∃ start start',
        (Block.ofText (Text.paragraphs texts))[i]? = some (whole start text) ∧
        (Block.ofText (Text.paragraphs texts'))[i']? = some (whole start' text) ∧
        ∀ message,
          ((whole start text).report message ∈ (ofText (Text.paragraphs texts)).errors ↔
            ∃ complaint ∈ complaint? (Scope.ofDecls (ofText (Text.paragraphs texts)).body) text,
              message = complaint.message start) ∧
          ((whole start' text).report message ∈ (ofText (Text.paragraphs texts')).errors ↔
            ∃ complaint ∈ complaint? (Scope.ofDecls (ofText (Text.paragraphs texts)).body) text,
              message = complaint.message start') := by
  have hwhole' : ∀ text ∈ texts', IsWhole text :=
    fun text htext => hwhole text (hperm.mem_iff.mp htext)
  have hscope : ∀ name,
      name ∈ (Scope.ofDecls (ofText (Text.paragraphs texts')).body).names ↔
        name ∈ (Scope.ofDecls (ofText (Text.paragraphs texts)).body).names := by
    rw [body_paragraphs hwhole, body_paragraphs hwhole']
    exact Scope.mem_names_of_perm (hperm.filterMap _)
  refine ⟨?_, body_paragraphs hwhole', fun i i' text htext htext' => ?_⟩
  · rw [blocks_paragraphs hwhole', map_lines_wholes]
  · obtain ⟨start, hblock⟩ := exists_of_getElem?_wholes 0 htext
    obtain ⟨start', hblock'⟩ := exists_of_getElem?_wholes 0 htext'
    refine ⟨start, start', ?_, ?_, fun message => ⟨report_whole_iff hwhole hblock message, ?_⟩⟩
    · rw [blocks_paragraphs hwhole, hblock]
    · rw [blocks_paragraphs hwhole', hblock']
    · rw [report_whole_iff hwhole' hblock' message, complaint?_congr hscope]

/-- A block that cannot be read, before and behind one that names a missing type. -/
theorem ofText_reordered_missing_type :
    (∀ text ∈ ["y = )", "x: Maybe\nx = 1"], IsWhole text) ∧
    ["x: Maybe\nx = 1", "y = )"].Perm ["y = )", "x: Maybe\nx = 1"] ∧
    "Error on lines 0 - 1\nexpected expression, got ')' at line 1 col 5:\n```\ny = )\n```" ∈
      (ofText (Text.paragraphs ["y = )", "x: Maybe\nx = 1"])).errors ∧
    "Error on lines 3 - 4\nexpected expression, got ')' at line 4 col 5:\n```\ny = )\n```" ∈
      (ofText (Text.paragraphs ["x: Maybe\nx = 1", "y = )"])).errors := by
  have hwhole : ∀ text ∈ ["y = )", "x: Maybe\nx = 1"], IsWhole text := by
    simp only [List.forall_mem_cons]
    refine ⟨⟨_, rfl, rfl⟩, ⟨_, rfl, rfl⟩, ?_⟩
    exact fun text htext => absurd htext List.not_mem_nil
  have hperm : ["x: Maybe\nx = 1", "y = )"].Perm ["y = )", "x: Maybe\nx = 1"] := .swap _ _ _
  obtain ⟨start, start', hblock, hblock', hreport⟩ :=
    (ofText_reordered hwhole hperm).2.2 0 1 "y = )" rfl rfl
  obtain rfl : 0 = start := congrArg Block.start (Option.some.inj hblock)
  obtain rfl : 3 = start' := congrArg Block.start (Option.some.inj hblock')
  have hread : (whole 0 "y = )").read =
      .error ⟨.expression, .expectedExpr (some (.symbol .closeParen)), ⟨1, 5⟩⟩ := by decide +kernel
  have hcomplaint (scope : Scope) : complaint? scope "y = )" =
      some (.unread ⟨.expression, .expectedExpr (some (.symbol .closeParen)), ⟨1, 5⟩⟩) := by
    rw [complaint?, hread]
  refine ⟨hwhole, hperm, ?_, ?_⟩
  · exact (hreport "expected expression, got ')' at line 1 col 5").1.mpr
      ⟨_, hcomplaint _, by decide +kernel⟩
  · exact (hreport "expected expression, got ')' at line 4 col 5").2.mpr
      ⟨_, hcomplaint _, by decide +kernel⟩

end Program

end Polyglot
