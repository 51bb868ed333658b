import Polyglot.Proofs.Expr.Acceptance
import Polyglot.Proofs.Expr.Unchained
import Polyglot.Proofs.Script.Grammar
import Polyglot.Target

/-!
# Grouping in JavaScript

Chains of operators that bind alike nest to the right in the source language, and they are written
without parentheses; JavaScript groups them to the left. So the operations of a tree come back from
its JavaScript text unless an operation has a right operand that binds alike.

Results:
1. `ofText_source`: the source of a tree, with each operation in parentheses, is read as the tree.
2. `pieces_scriptText`: the pieces of its JavaScript text.
3. `reads_of_grouped`, `grouped_of_reads`: exactly when these have the operations of the tree.
4. `read_script_eq_iff_grouped`: so compilation keeps the operations of grouped trees, and of no
   others.
-/

namespace Polyglot

/-! ## Operator trees of the source language -/

/-- A name or a number of the source language. -/
structure Leaf where
  text : String
  wellFormed : isPlainName text ∨ isNumeral text.toList = true

namespace Leaf

def isNumber (leaf : Leaf) : Bool :=
  isNumeral leaf.text.toList

def lexeme (leaf : Leaf) : Lexeme :=
  if leaf.isNumber then .number leaf.text else .ident leaf.text

/-- The piece of a script that a leaf is written as. -/
def piece (leaf : Leaf) : Script.Piece :=
  if leaf.isNumber then .number leaf.text else .word leaf.text

/-- An upper-case name is a tag, and a tag is written as a call. -/
def isTag (leaf : Leaf) : Bool :=
  isUpperName leaf.text

/-- Whether JavaScript reads the leaf as an operand. -/
def isOperand (leaf : Leaf) : Bool :=
  !leaf.isTag && leaf.piece.operand?.isSome

end Leaf

namespace OperatorTree

def map {α β : Type} (f : α → β) : OperatorTree α → OperatorTree β
  | leaf item => leaf (f item)
  | node op left right => node op (left.map f) (right.map f)

def leaves {α : Type} : OperatorTree α → List α
  | leaf item => [item]
  | node _ left right => left.leaves ++ right.leaves

/-- The tree in the source language, with every operation in parentheses. -/
def source : OperatorTree Leaf → String
  | leaf item => item.text
  | node op left right => "(" ++ (left.source ++ " " ++ op.sign ++ " " ++ right.source) ++ ")"

def lexemes : OperatorTree Leaf → List Lexeme
  | leaf item => [item.lexeme]
  | node op left right => inParens (left.lexemes ++ [.symbol op.symbol] ++ right.lexemes)

def expr : OperatorTree Leaf → Expr
  | leaf item => Grammar.nameExpr item.text
  | node op left right => .binary op left.expr right.expr

end OperatorTree

namespace BinaryOp

def isEquality : BinaryOp → Bool
  | .eq | .ne => true
  | _ => false

def isOrdering : BinaryOp → Bool
  | .lt | .le | .gt | .ge => true
  | _ => false

end BinaryOp

namespace OperatorTree

variable {α : Type}

/-- Whether a tree can stand without parentheses right of `op`: it binds differently, or it is an
ordering and `op` an equality. -/
def hangsRightOf (op : BinaryOp) : OperatorTree α → Bool
  | leaf _ => true
  | node op' _ _ =>
      op'.precedence != op.precedence || (op.isEquality && op'.isOrdering)

/-- No operation has a right operand that binds alike, orderings below equalities apart. -/
def grouped : OperatorTree α → Bool
  | leaf _ => true
  | node op left right => right.hangsRightOf op && (left.grouped && right.grouped)

end OperatorTree

/-! ## Reading the source -/

namespace Leaf

theorem isUpperName_number {text : String} (h : isNumeral text.toList = true) :
    isUpperName text = false := by
  obtain ⟨whole, fraction, heq, hne, hwhole, _⟩ := isNumeral_iff.mp h
  obtain ⟨d, ds, rfl⟩ := List.exists_cons_of_ne_nil hne
  rw [isUpperName, heq, List.cons_append]
  exact Char.isUpper_of_isDigit (hwhole d List.mem_cons_self)

theorem spelled (leaf : Leaf) : Spelled leaf.text [leaf.lexeme] := by
  unfold lexeme
  split
  · next hnumber => exact .lexeme (l := .number leaf.text) hnumber
  · next hname => exact spelled_ident (leaf.wellFormed.resolve_right hname)

theorem derives (leaf : Leaf) :
    Grammar.Derives .application [leaf.lexeme] (Grammar.nameExpr leaf.text) := by
  unfold lexeme Grammar.nameExpr
  split
  · next hnumber =>
    rw [isUpperName_number hnumber]
    exact .operand .number
  · split
    · next hupper => exact .construct hupper
    · next hlower => exact .value (by simpa using hlower)

end Leaf

namespace OperatorTree

open Grammar

theorem source_spelled (tree : OperatorTree Leaf) : Spelled tree.source tree.lexemes := by
  induction tree with
  | leaf item => exact item.spelled
  | node op left right ihleft ihright =>
    have hop := spelled_symbol op.symbol
    rw [op.spelling_symbol] at hop
    exact spelled_parens ((ihleft.spaced hop).spaced ihright)

theorem derives_lexemes (tree : OperatorTree Leaf) :
    Derives .application tree.lexemes tree.expr := by
  induction tree with
  | leaf item => exact item.derives
  | node op left right ihleft ihright =>
    have hlevel : op.precedence + 1 ≤ 6 := by cases op <;> decide
    have hlevel' : (if op.isComparison then 4 else op.precedence) ≤ 6 := by cases op <;> decide
    have hleft : Derives (.ofLevel 6) left.lexemes left.expr := ihleft
    have hright : Derives (.ofLevel 6) right.lexemes right.expr := ihright
    have hoperation := derives_binary (derives_ofLevel_mono hleft hlevel)
      (derives_ofLevel_mono hright hlevel')
    rw [lexemes, List.append_assoc]
    exact .operand (derives_inParens (derives_expr_of_level hoperation))

/-- The source of a tree is read as the tree. -/
theorem ofText_source (tree : OperatorTree Leaf) : Expr.ofText tree.source = .ok tree.expr := by
  obtain ⟨found, hscan, hls, _⟩ := scan_spelled tree.source_spelled 1
  refine ofText_of_derives hscan ?_
  rw [hls]
  exact derives_expr_of_level (show Derives (.ofLevel 6) _ _ from tree.derives_lexemes)

end OperatorTree

/-! ## Writing JavaScript -/

namespace OperatorTree

/-- The text of the tree in JavaScript. -/
def scriptText : OperatorTree Leaf → String
  | leaf item => if item.isTag then item.text ++ "(" ++ "\x7b \x7d" ++ ")" else item.text
  | node op left right =>
      operandText .left left.expr op.precedence left.scriptText ++ " " ++ Script.operatorSign op ++
        " " ++ operandText .right right.expr op.precedence right.scriptText

theorem operator_eq (op : BinaryOp) : Target.js.dialect.operator op = Script.operatorSign op := by
  cases op <;> rfl

theorem render_expr (tree : OperatorTree Leaf) :
    (Target.js.dialect.expr tree.expr).Yields tree.scriptText := by
  induction tree with
  | leaf item =>
    intro count
    unfold expr scriptText Grammar.nameExpr Leaf.isTag
    split <;> rfl
  | node op left right ihleft ihright =>
    intro count
    refine Dialect.render_ok rfl (.cons (ihleft count) (.cons (ihright count) .nil)) .nil ?_
    rw [scriptText, ← operator_eq]
    rfl

end OperatorTree

/-! ## The pieces of the text -/

namespace Script

/-- Whatever stands behind it, the text is cut into the pieces `ps`. -/
def Cuts (text : String) (ps : List Piece) : Prop :=
  ∀ rest, (∀ c ∈ rest.head?, isNumberPart c = false) →
    pieces (text.toList ++ rest) = (pieces rest).map (ps ++ ·)

def encloseIf (condition : Bool) (ps : List Piece) : List Piece :=
  if condition then enclose ps else ps

theorem cuts_leaf (leaf : Leaf) : Cuts leaf.text [leaf.piece] := by
  intro rest hrest
  unfold Leaf.piece
  split
  · next hnumber => exact pieces_number hnumber hrest
  · next hname =>
    have hplain : isPlainName leaf.text := leaf.wellFormed.resolve_right hname
    rw [isPlainName, Lexeme.valid, Bool.and_eq_true] at hplain
    refine pieces_word hplain.1 fun c hc => ?_
    have hpart := hrest c hc
    rw [isNumberPart, Bool.or_eq_false_iff] at hpart
    exact hpart.1

/-- The call that a tag is written as. -/
theorem cuts_tag {leaf : Leaf} {ps : List Piece} (h : Cuts leaf.text ps) :
    Cuts (leaf.text ++ "(" ++ "\x7b \x7d" ++ ")") (ps ++ enclose [.sign "\x7b", .sign "\x7d"]) := by
  intro rest _
  have hclose := pieces_bracket ")" (by simp) rest
  have hbrace := pieces_bracket "\x7d" (by simp) (")".toList ++ rest)
  have hblank := pieces_blank ("\x7d".toList ++ (")".toList ++ rest))
  have hopen := pieces_bracket "\x7b" (by simp)
    (' ' :: ("\x7d".toList ++ (")".toList ++ rest)))
  have hcall := pieces_bracket "(" (by simp)
    ("\x7b".toList ++ ' ' :: ("\x7d".toList ++ (")".toList ++ rest)))
  have htext : (leaf.text ++ "(" ++ "\x7b \x7d" ++ ")").toList ++ rest =
      leaf.text.toList ++ ("(".toList ++ ("\x7b".toList ++ ' ' ::
        ("\x7d".toList ++ (")".toList ++ rest)))) := by
    simp
  rw [htext, h _ (by simp [isNumberPart, isWordPart]), hcall, hopen, hblank, hbrace, hclose]
  simp only [Option.map_map]
  refine congrArg (Option.map · (pieces rest)) (funext fun qs => ?_)
  simp [enclose]

theorem cuts_parenthesized {text : String} {ps : List Piece} (h : Cuts text ps)
    (condition : Bool) : Cuts (parenthesized condition text) (encloseIf condition ps) := by
  cases condition with
  | false => exact h
  | true =>
    intro rest _
    have hclose := pieces_bracket ")" (by simp) rest
    have hopen := pieces_bracket "(" (by simp) (text.toList ++ (")".toList ++ rest))
    have htext : (parenthesized true text).toList ++ rest =
        "(".toList ++ (text.toList ++ (")".toList ++ rest)) := by
      simp [parenthesized]
    rw [htext, hopen, h _ (by simp [isNumberPart, isWordPart]), hclose]
    simp only [Option.map_map]
    refine congrArg (Option.map · (pieces rest)) (funext fun qs => ?_)
    simp [encloseIf, enclose]

theorem cuts_operation {text text' : String} {ps qs : List Piece} (h : Cuts text ps)
    (h' : Cuts text' qs) (op : BinaryOp) :
    Cuts (text ++ " " ++ operatorSign op ++ " " ++ text') (ps ++ operatorPiece op :: qs) := by
  intro rest hrest
  have htext : (text ++ " " ++ operatorSign op ++ " " ++ text').toList ++ rest =
      text.toList ++ ' ' :: ((operatorSign op).toList ++ ' ' :: (text'.toList ++ rest)) := by
    simp
  rw [htext, h _ (by simp [isNumberPart, isWordPart]), pieces_blank, pieces_operator, h' rest hrest]
  simp only [Option.map_map]
  refine congrArg (Option.map · (pieces rest)) (funext fun rs => ?_)
  simp

end Script

namespace OperatorTree

open Script

def scriptPieces : OperatorTree Leaf → List Piece
  | leaf item =>
      if item.isTag then [item.piece] ++ enclose [.sign "\x7b", .sign "\x7d"] else [item.piece]
  | node op left right =>
      encloseIf (needsParens .left left.expr.precedence op.precedence) left.scriptPieces ++
        operatorPiece op ::
          encloseIf (needsParens .right right.expr.precedence op.precedence) right.scriptPieces

theorem cuts_scriptText (tree : OperatorTree Leaf) : Cuts tree.scriptText tree.scriptPieces := by
  induction tree with
  | leaf item =>
    unfold scriptText scriptPieces
    split
    · exact cuts_tag (cuts_leaf item)
    · exact cuts_leaf item
  | node op left right ihleft ihright =>
    exact cuts_operation (cuts_parenthesized ihleft _) (cuts_parenthesized ihright _) op

theorem pieces_scriptText (tree : OperatorTree Leaf) :
    pieces tree.scriptText.toList = some tree.scriptPieces := by
  have hcuts := tree.cuts_scriptText [] (by simp)
  rw [List.append_nil, pieces, Option.map_some, List.append_nil] at hcuts
  exact hcuts

/-! ## Readings of the pieces -/

theorem balanced_encloseIf {ps : List Piece} (h : Balanced ps) (condition : Bool) :
    Balanced (encloseIf condition ps) := by
  cases condition with
  | false => exact h
  | true => exact h.enclose

theorem weight_piece (item : Leaf) : item.piece.weight = 0 := by
  unfold Leaf.piece
  split <;> rfl

theorem balanced_scriptPieces (tree : OperatorTree Leaf) : Balanced tree.scriptPieces := by
  induction tree with
  | leaf item =>
    have hpiece : Balanced [item.piece] := balanced_singleton (weight_piece item)
    have hbraces : Balanced [.sign "\x7b", .sign "\x7d"] :=
      (balanced_singleton (p := .sign "\x7b") rfl).append
        (balanced_singleton (p := .sign "\x7d") rfl)
    unfold scriptPieces
    split
    · exact hpiece.append hbraces.enclose
    · exact hpiece
  | node op left right ihleft ihright =>
    have hop : Balanced [operatorPiece op] := balanced_singleton (weight_operatorPiece op)
    exact (balanced_encloseIf ihleft _).append (hop.append (balanced_encloseIf ihright _))

theorem encloseIf_ne_nil {ps : List Piece} (h : ps ≠ []) (condition : Bool) :
    encloseIf condition ps ≠ [] := by
  cases condition with
  | false => exact h
  | true => exact List.cons_ne_nil _ _

theorem scriptPieces_ne_nil (tree : OperatorTree Leaf) : tree.scriptPieces ≠ [] := by
  cases tree with
  | leaf item =>
    unfold scriptPieces
    split <;> simp
  | node op left right =>
    unfold scriptPieces
    simp

/-! ### Grouped trees are read -/

/-- A left operand without parentheses binds more tightly. -/
theorem level_left {op op' : BinaryOp}
    (h : needsParens .left op'.precedence op.precedence = false) : level op ≤ level op' := by
  revert h
  cases op <;> cases op' <;> decide

/-- A right operand without parentheses binds more tightly exactly if it may hang there. -/
theorem level_right {op op' : BinaryOp}
    (h : needsParens .right op'.precedence op.precedence = false) :
    level op + 1 ≤ level op' ↔
      (op'.precedence != op.precedence || (op.isEquality && op'.isOrdering)) = true := by
  revert h
  cases op <;> cases op' <;> decide

/-- The levels at which a tree can be read. -/
def Reaches {α : Type} (k : Nat) : OperatorTree α → Prop
  | leaf _ => True
  | node op _ _ => k ≤ level op

theorem reads_encloseIf {ps : List Piece} {text : OperatorTree String} {k : Nat} {condition : Bool}
    (hinner : Reads 1 ps text) (hbare : condition = false → Reads k ps text) :
    Reads k (encloseIf condition ps) text := by
  cases condition with
  | false => exact hbare rfl
  | true => exact .parens hinner

theorem reaches_one {α : Type} (tree : OperatorTree α) : Reaches 1 tree := by
  cases tree with
  | leaf item => trivial
  | node op left right =>
    show 1 ≤ level op
    cases op <;> decide

theorem text_piece (item : Leaf) : item.piece.text = item.text := by
  unfold Leaf.piece
  split <;> rfl

theorem operand?_piece {item : Leaf} (h : item.piece.operand?.isSome = true) :
    item.piece.operand? = some item.text := by
  obtain ⟨text, htext⟩ := Option.isSome_iff_exists.mp h
  rw [htext, ← operand?_eq_text htext, text_piece]

theorem reads_of_grouped {tree : OperatorTree Leaf} (hgrouped : tree.grouped = true)
    (hleaves : ∀ item ∈ tree.leaves, item.isOperand = true) {k : Nat} (hk : Reaches k tree) :
    Reads k tree.scriptPieces (tree.map Leaf.text) := by
  induction tree generalizing k with
  | leaf item =>
    have hoperand := hleaves item List.mem_cons_self
    rw [Leaf.isOperand, Bool.and_eq_true, Bool.not_eq_true'] at hoperand
    rw [scriptPieces, hoperand.1]
    exact .operand (operand?_piece hoperand.2)
  | node op left right ihleft ihright =>
    rw [grouped, Bool.and_eq_true, Bool.and_eq_true] at hgrouped
    rw [leaves, List.forall_mem_append] at hleaves
    have hleft : ∀ {k}, Reaches k left → Reads k left.scriptPieces (left.map Leaf.text) :=
      ihleft hgrouped.2.1 hleaves.1
    have hright : ∀ {k}, Reaches k right → Reads k right.scriptPieces (right.map Leaf.text) :=
      ihright hgrouped.2.2 hleaves.2
    refine .binary hk (reads_encloseIf (hleft (reaches_one left)) fun hbare => hleft ?_)
      (reads_encloseIf (hright (reaches_one right)) fun hbare => hright ?_)
    · cases left with
      | leaf item => trivial
      | node op' _ _ => exact level_left hbare
    · cases right with
      | leaf item => trivial
      | node op' _ _ => exact (level_right hbare).mpr hgrouped.1

/-! ### Only grouped trees are read -/

theorem operations_map {α β : Type} (f : α → β) (tree : OperatorTree α) :
    (tree.map f).operations = tree.operations := by
  induction tree with
  | leaf item => rfl
  | node op left right ihleft ihright => rw [map, operations, operations, ihleft, ihright]

theorem countP_encloseIf (condition : Bool) (ps : List Piece) :
    (encloseIf condition ps).countP Piece.isOperator = ps.countP Piece.isOperator := by
  cases condition with
  | false => rfl
  | true => exact countP_enclose ps

theorem countP_scriptPieces (tree : OperatorTree Leaf) :
    tree.scriptPieces.countP Piece.isOperator = tree.operations := by
  induction tree with
  | leaf item =>
    have hpiece : item.piece.isOperator = false := by
      unfold Leaf.piece
      split <;> rfl
    have hone : [item.piece].countP Piece.isOperator = 0 := by
      rw [List.countP_cons_of_neg (by simp [hpiece]), List.countP_nil]
    unfold scriptPieces operations
    split
    · rw [List.countP_append, hone, countP_enclose]
      rfl
    · exact hone
  | node op left right ihleft ihright =>
    rw [scriptPieces, countP_operation, countP_encloseIf, countP_encloseIf, ihleft, ihright,
      operations]

theorem reads_of_enclose {k : Nat} {ps : List Piece} {tree : OperatorTree String}
    (h : Reads k (enclose ps) tree) (hps : Balanced ps) : Reads 1 ps tree := by
  generalize hqs : enclose ps = qs at h
  cases h with
  | operand _ => exact absurd hqs enclose_ne_singleton
  | parens h =>
    rw [enclose_injective hqs]
    exact h
  | binary _ hleft _ =>
    have hbalanced := balanced_of_reads hleft
    exact absurd hqs (enclose_ne_operation hps (reads_ne_nil hleft) hbalanced.total)

theorem exists_reads_of_encloseIf {k : Nat} {condition : Bool} {ps : List Piece}
    {tree : OperatorTree String} (h : Reads k (encloseIf condition ps) tree) (hps : Balanced ps) :
    ∃ j, Reads j ps tree := by
  cases condition with
  | false => exact ⟨k, h⟩
  | true => exact ⟨1, reads_of_enclose h hps⟩

/-- An operation whose left operand has as many operators as it should is read operand by
operand. -/
theorem reads_of_operation {k : Nat} {op : BinaryOp} {ps qs : List Piece}
    {left right : OperatorTree String}
    (h : Reads k (ps ++ operatorPiece op :: qs) (.node op left right)) (hps : Balanced ps)
    (hne : ps ≠ []) (hcount : ps.countP Piece.isOperator = left.operations) :
    k ≤ level op ∧ Reads (level op) ps left ∧ Reads (level op + 1) qs right := by
  generalize hrs : ps ++ operatorPiece op :: qs = rs at h
  cases h with
  | parens h =>
    exact absurd hrs.symm (enclose_ne_operation (balanced_of_reads h) hne hps.total)
  | @binary _ _ ps' qs' _ _ hk hleft hright =>
    have hcount' := countP_of_reads hleft
    rcases List.append_eq_append_iff.mp hrs with ⟨zs, rfl, hzs⟩ | ⟨zs, rfl, hzs⟩
    · cases zs with
      | nil =>
        rw [List.append_nil] at hleft
        rw [(List.cons.inj hzs).2]
        exact ⟨hk, hleft, hright⟩
      | cons z zs =>
        obtain ⟨rfl, _⟩ := List.cons.inj hzs
        rw [countP_operation] at hcount'
        omega
    · cases zs with
      | nil =>
        rw [List.append_nil]
        rw [← (List.cons.inj hzs).2]
        exact ⟨hk, hleft, hright⟩
      | cons z zs =>
        obtain ⟨rfl, _⟩ := List.cons.inj hzs
        rw [countP_operation] at hcount
        omega

theorem leaf_of_reads {k : Nat} {item : Leaf}
    (h : Reads k (leaf item).scriptPieces (.leaf item.text)) : item.isOperand = true := by
  unfold scriptPieces at h
  split at h
  · -- The call of a tag is neither one piece nor a whole in parentheses.
    generalize hps : [item.piece] ++ enclose [.sign "\x7b", .sign "\x7d"] = ps at h
    cases h with
    | operand _ => cases hps
    | parens _ =>
      have hopen : item.piece = .sign "(" := (List.cons.inj hps).1
      unfold Leaf.piece at hopen
      split at hopen <;> cases hopen
  · next htag =>
    generalize hps : [item.piece] = ps at h
    cases h with
    | operand hp =>
      obtain ⟨rfl, _⟩ := List.cons.inj hps
      rw [Leaf.isOperand, hp]
      simpa using htag
    | parens _ => exact absurd hps.symm enclose_ne_singleton

/-- In parentheses, a right operand binds differently. -/
theorem precedence_ne_of_needsParens {op op' : BinaryOp}
    (h : needsParens .right op'.precedence op.precedence = true) :
    (op'.precedence != op.precedence) = true := by
  revert h
  cases op <;> cases op' <;> decide

/-- Pieces that have the operations of their tree have them only one way: the operator between the
operands of the tree is the one that the reading splits at, so the right operand must bind more
tightly than it. -/
theorem grouped_of_reads {tree : OperatorTree Leaf} {k : Nat}
    (h : Reads k tree.scriptPieces (tree.map Leaf.text)) :
    Reaches k tree ∧ tree.grouped = true ∧ ∀ item ∈ tree.leaves, item.isOperand = true := by
  induction tree generalizing k with
  | leaf item => exact ⟨trivial, rfl, List.forall_mem_singleton.mpr (leaf_of_reads h)⟩
  | node op left right ihleft ihright =>
    have hcount : (encloseIf (needsParens .left left.expr.precedence op.precedence)
        left.scriptPieces).countP Piece.isOperator = (left.map Leaf.text).operations := by
      rw [countP_encloseIf, countP_scriptPieces, operations_map]
    obtain ⟨hk, hleft, hright⟩ := reads_of_operation h
      (balanced_encloseIf left.balanced_scriptPieces _)
      (encloseIf_ne_nil left.scriptPieces_ne_nil _) hcount
    obtain ⟨j, hleft⟩ := exists_reads_of_encloseIf hleft left.balanced_scriptPieces
    obtain ⟨j', hinner⟩ := exists_reads_of_encloseIf hright right.balanced_scriptPieces
    obtain ⟨_, hgrouped, hleaves⟩ := ihleft hleft
    obtain ⟨_, hgrouped', hleaves'⟩ := ihright hinner
    have hhangs : right.hangsRightOf op = true := by
      cases right with
      | leaf item => rfl
      | node op' left' right' =>
        cases hparens : needsParens .right op'.precedence op.precedence with
        | true =>
          rw [hangsRightOf, precedence_ne_of_needsParens hparens]
          rfl
        | false =>
          have hbare : encloseIf (needsParens .right (node op' left' right').expr.precedence
              op.precedence) (node op' left' right').scriptPieces =
                (node op' left' right').scriptPieces := by
            rw [encloseIf, show (node op' left' right').expr.precedence = op'.precedence from rfl,
              hparens]
            rfl
          rw [hbare] at hright
          exact (level_right hparens).mp (ihright hright).1
    refine ⟨hk, ?_, List.forall_mem_append.mpr ⟨hleaves, hleaves'⟩⟩
    rw [grouped, hhangs, hgrouped, hgrouped']
    rfl

theorem reading_scriptText_iff (tree : OperatorTree Leaf) :
    Reading tree.scriptText (tree.map Leaf.text) ↔
      tree.grouped = true ∧ tree.leaves.all Leaf.isOperand = true := by
  rw [List.all_eq_true]
  constructor
  · rintro ⟨ps, hps, hreads⟩
    rw [tree.pieces_scriptText] at hps
    rw [← Option.some.inj hps] at hreads
    exact (grouped_of_reads hreads).2
  · rintro ⟨hgrouped, hleaves⟩
    exact ⟨_, tree.pieces_scriptText, reads_of_grouped hgrouped hleaves (reaches_one tree)⟩

/-- Every operator tree, written with each operation in parentheses, compiles to a JavaScript
expression. That expression is read as the same tree exactly if the tree is grouped and JavaScript
reads its leaves as operands. -/
theorem read_script_eq_iff_grouped (tree : OperatorTree Leaf) :
    ∃ expr text, ∃ result : Option (OperatorTree String),
      Expr.ofText tree.source = .ok expr ∧
      (∀ count, Target.js.dialect.expr expr count = .ok text count) ∧
      (∀ other, Reading text other ↔ result = some other) ∧
      (result = some (tree.map Leaf.text) ↔
        tree.grouped = true ∧ tree.leaves.all Leaf.isOperand = true) := by
  obtain ⟨result, hresult⟩ := exists_reading tree.scriptText
  refine ⟨tree.expr, tree.scriptText, result, tree.ofText_source, tree.render_expr, hresult, ?_⟩
  rw [← hresult]
  exact tree.reading_scriptText_iff

/-- Of three operands in a chain, JavaScript puts the first two together, whatever the source
says. -/
theorem read_script_right_nested :
    Expr.ofText "(a - (b - c))" =
        .ok (.binary .sub (.value "a") (.binary .sub (.value "b") (.value "c"))) ∧
      Target.js.dialect.expr
          (.binary .sub (.value "a") (.binary .sub (.value "b") (.value "c"))) 0 =
        .ok "a - b - c" 0 ∧
      Reading "a - b - c" (.node .sub (.node .sub (.leaf "a") (.leaf "b")) (.leaf "c")) ∧
      ¬ Reading "a - b - c" (.node .sub (.leaf "a") (.node .sub (.leaf "b") (.leaf "c"))) := by
  have hpieces : pieces "a - b - c".toList =
      some [.word "a", .sign "-", .word "b", .sign "-", .word "c"] := by decide +kernel
  have ha : Reads 5 [.word "a"] (.leaf "a") := .operand rfl
  have hab : Reads 5 ([.word "a"] ++ operatorPiece .sub :: [.word "b"])
      (.node .sub (.leaf "a") (.leaf "b")) := .binary (Nat.le_refl 5) ha (.operand rfl)
  have habc : Reads 1 ([.word "a", .sign "-", .word "b"] ++ operatorPiece .sub :: [.word "c"])
      (.node .sub (.node .sub (.leaf "a") (.leaf "b")) (.leaf "c")) :=
    .binary (by decide) hab (.operand rfl)
  have hreads : Reading "a - b - c" (.node .sub (.node .sub (.leaf "a") (.leaf "b")) (.leaf "c")) :=
    ⟨_, hpieces, habc⟩
  refine ⟨by decide +kernel, rfl, hreads, fun hother => ?_⟩
  exact absurd (reading_unique hreads hother) (by decide)

end OperatorTree

end Polyglot
