import Polyglot.Expr
import Polyglot.Proofs.Token.Spelling

/-!
# Operator expressions of JavaScript

The part of JavaScript's grammar, in module code, that concerns operations on names and decimal
numbers. A text is cut into pieces, of which each sign is as long as it can be. Every binary operator
groups to the left, and equality binds less tightly than ordering.

Result: `reading_unique`: a text has one reading at most.
-/

namespace Polyglot

/-- A tree of operations on the items of `α`. -/
inductive OperatorTree (α : Type) where
  | leaf (item : α)
  | node (op : BinaryOp) (left right : OperatorTree α)
deriving DecidableEq, Repr

/-- How many operations there are. -/
def OperatorTree.operations {α : Type} : OperatorTree α → Nat
  | leaf _ => 0
  | node _ left right => left.operations + 1 + right.operations

namespace Script

/-! ## Pieces of a text -/

inductive Piece where
  | word (text : String)
  | number (text : String)
  | sign (text : String)
deriving DecidableEq, Repr

def isWordStart (c : Char) : Bool :=
  c.isAlpha || c == '_' || c == '$'

def isWordPart (c : Char) : Bool :=
  c.isAlphanum || c == '_' || c == '$'

/-- What a piece that starts with a digit runs over. -/
def isNumberPart (c : Char) : Bool :=
  isWordPart c || c == '.'

/-- The signs of the language, each before those it starts with. Two of them open comments. -/
def signs : List String :=
  [">>>=", "...", "===", "!==", "**=", "<<=", ">>=", ">>>", "&&=", "||=", "??=", "=>", "==", "!=",
    "<=", ">=", "&&", "||", "??", "?.", "++", "--", "+=", "-=", "*=", "/=", "%=", "&=", "|=", "^=",
    "<<", ">>", "**", "//", "/*", "\x7b", "\x7d", "(", ")", "[", "]", ";", ",", "<", ">", "+", "-",
    "*", "/", "%", "&", "|", "^", "!", "~", "?", ":", "=", "."]

/-- The longest sign at the start of a text. -/
def sign? (cs : List Char) : Option String :=
  signs.find? fun sign => sign.toList.isPrefixOf cs

def pieces : List Char → Option (List Piece)
  | [] => some []
  | c :: cs =>
      if isGap c || c == '\n' then
        pieces cs
      else if isWordStart c then
        (pieces (cs.dropWhile isWordPart)).map
          (.word (String.ofList (c :: cs.takeWhile isWordPart)) :: ·)
      else if c.isDigit then
        (pieces (cs.dropWhile isNumberPart)).map
          (.number (String.ofList (c :: cs.takeWhile isNumberPart)) :: ·)
      else
        match sign? (c :: cs) with
        | none => none
        | some sign => (pieces (cs.drop (sign.length - 1))).map (.sign sign :: ·)
termination_by cs => cs.length
decreasing_by
  · exact Nat.lt_succ_self _
  · exact Nat.lt_succ_of_le (List.dropWhile_sublist _).length_le
  · exact Nat.lt_succ_of_le (List.dropWhile_sublist _).length_le
  · exact Nat.lt_succ_of_le (List.drop_sublist _ _).length_le

theorem pieces_blank (cs : List Char) : pieces (' ' :: cs) = pieces cs := by
  rw [pieces]
  rfl

theorem not_space_of_isNamePart {c : Char} (h : isNamePart c = true) :
    (isGap c || c == '\n') = false := by
  cases hspace : isGap c || c == '\n' with
  | false => rfl
  | true =>
    simp only [isGap, Bool.or_eq_true, beq_iff_eq] at hspace
    rcases hspace with ((rfl | rfl) | rfl) | rfl <;> exact absurd h (by decide)

theorem isWordPart_of_isNamePart {c : Char} (h : isNamePart c = true) : isWordPart c = true := by
  simp only [isWordPart, Bool.or_eq_true]
  exact .inl (by simpa [isNamePart] using h)

/-- A name ends before a character that is no part of a word. -/
theorem pieces_word {name : String} (h : isName name.toList = true) {rest : List Char}
    (hrest : ∀ c ∈ rest.head?, isWordPart c = false) :
    pieces (name.toList ++ rest) = (pieces rest).map (.word name :: ·) := by
  cases hname : name.toList with
  | nil =>
    rw [hname] at h
    cases h
  | cons c cs =>
    rw [hname, isName, Bool.and_eq_true] at h
    have hstart : isWordStart c = true := by
      simp only [isWordStart, Bool.or_eq_true]
      exact .inl (by simpa [isNameStart] using h.1)
    have hcs : ∀ d ∈ cs, isWordPart d = true :=
      fun d hd => isWordPart_of_isNamePart (List.all_eq_true.mp h.2 d hd)
    obtain ⟨htake, hdrop⟩ := List.takeWhile_of_head hcs hrest
    rw [List.cons_append, pieces, not_space_of_isNamePart (isNamePart_of_isNameStart h.1),
      if_neg Bool.false_ne_true, if_pos hstart, htake, hdrop, ← hname, String.ofList_toList]

theorem isWordStart_of_isDigit {c : Char} (h : c.isDigit = true) : isWordStart c = false := by
  cases hstart : isWordStart c with
  | false => rfl
  | true =>
    simp only [isWordStart, Bool.or_eq_true, beq_iff_eq] at hstart
    rcases hstart with (hstart | rfl) | rfl
    · have hname : isNameStart c = true := by simp [isNameStart, hstart]
      rw [isDigit_of_isNameStart hname] at h
      cases h
    · exact absurd h (by decide)
    · exact absurd h (by decide)

theorem pieces_number {digits : String} (h : isNumeral digits.toList = true) {rest : List Char}
    (hrest : ∀ c ∈ rest.head?, isNumberPart c = false) :
    pieces (digits.toList ++ rest) = (pieces rest).map (.number digits :: ·) := by
  obtain ⟨whole, fraction, heq, hne, hwhole, hfraction⟩ := isNumeral_iff.mp h
  have hdigit : ∀ {c : Char}, c.isDigit = true → isNumberPart c = true := by
    intro c hc
    rw [isNumberPart, isWordPart_of_isNamePart (isNamePart_of_isDigit hc)]
    rfl
  have hparts : ∀ c ∈ digits.toList, isNumberPart c = true := by
    rw [heq, List.forall_mem_append]
    refine ⟨fun c hc => hdigit (hwhole c hc), ?_⟩
    rcases hfraction with rfl | ⟨d, ds, rfl, hds⟩
    · exact fun c hc => absurd hc List.not_mem_nil
    · exact List.forall_mem_cons.mpr ⟨rfl, fun c hc => hdigit (hds c hc)⟩
  cases hdigits : digits.toList with
  | nil =>
    rw [hdigits] at heq
    exact absurd (List.append_eq_nil_iff.mp heq.symm).1 hne
  | cons c cs =>
    have hc : c.isDigit = true := by
      obtain ⟨d, ds, rfl⟩ := List.exists_cons_of_ne_nil hne
      rw [hdigits, List.cons_append] at heq
      rw [(List.cons.inj heq).1]
      exact hwhole d List.mem_cons_self
    rw [hdigits, List.forall_mem_cons] at hparts
    obtain ⟨htake, hdrop⟩ := List.takeWhile_of_head hparts.2 hrest
    rw [List.cons_append, pieces, not_space_of_isNamePart (isNamePart_of_isDigit hc),
      if_neg Bool.false_ne_true, if_neg (by simp [isWordStart_of_isDigit hc]), if_pos hc, htake,
      hdrop, ← hdigits, String.ofList_toList]

theorem pieces_sign {sign : String} {c : Char} {cs rest : List Char} (hsign : sign.toList = c :: cs)
    (hspace : (isGap c || c == '\n') = false) (hword : isWordStart c = false)
    (hdigit : c.isDigit = false) (hlongest : sign? (sign.toList ++ rest) = some sign) :
    pieces (sign.toList ++ rest) = (pieces rest).map (.sign sign :: ·) := by
  have hlength : sign.length - 1 = cs.length := by
    rw [← String.length_toList, hsign]
    rfl
  rw [hsign, List.cons_append] at hlongest ⊢
  rw [pieces, hspace, if_neg Bool.false_ne_true, hword, if_neg Bool.false_ne_true, hdigit,
    if_neg Bool.false_ne_true, hlongest]
  dsimp only
  rw [hlength, List.drop_left]

/-- No sign goes on behind a parenthesis or a brace. -/
theorem pieces_bracket (sign : String) (h : sign ∈ ["(", ")", "\x7b", "\x7d"]) (rest : List Char) :
    pieces (sign.toList ++ rest) = (pieces rest).map (.sign sign :: ·) := by
  simp only [List.mem_cons, List.not_mem_nil, or_false] at h
  rcases h with rfl | rfl | rfl | rfl <;> exact pieces_sign rfl rfl rfl rfl rfl

/-! ## Expressions -/

/-- The reserved words that are no expressions. -/
def reserved : List String :=
  ["await", "break", "case", "catch", "class", "const", "continue", "debugger", "default", "delete",
    "do", "else", "enum", "export", "extends", "finally", "for", "function", "if", "implements",
    "import", "in", "instanceof", "interface", "let", "new", "package", "private", "protected",
    "public", "return", "static", "super", "switch", "throw", "try", "typeof", "var", "void",
    "while", "with", "yield"]

/-- A decimal number: no digit stands behind a zero that comes first. -/
def isLiteral (cs : List Char) : Bool :=
  isNumeral cs &&
    match cs with
    | '0' :: d :: _ => !d.isDigit
    | _ => true

/-- The text of a piece that is an operand by itself. -/
def Piece.operand? : Piece → Option String
  | .word text => if text ∈ reserved then none else some text
  | .number text => if isLiteral text.toList then some text else none
  | .sign _ => none

def Piece.text : Piece → String
  | .word text | .number text | .sign text => text

theorem operand?_eq_text {p : Piece} {text : String} (h : p.operand? = some text) :
    p.text = text := by
  cases p with
  | word found =>
    rw [Piece.operand?] at h
    split at h
    · cases h
    · exact Option.some.inj h
  | number found =>
    rw [Piece.operand?] at h
    split at h
    · exact Option.some.inj h
    · cases h
  | sign found => cases h

/-- How tightly an operator binds. -/
def level : BinaryOp → Nat
  | .or => 1
  | .and => 2
  | .eq | .ne => 3
  | .lt | .le | .gt | .ge => 4
  | .add | .sub => 5
  | .mul | .div => 6

def operatorSign : BinaryOp → String
  | .or => "||"
  | .and => "&&"
  | .eq => "==="
  | .ne => "!=="
  | .lt => "<"
  | .le => "<="
  | .gt => ">"
  | .ge => ">="
  | .add => "+"
  | .sub => "-"
  | .mul => "*"
  | .div => "/"

def operatorPiece (op : BinaryOp) : Piece := .sign (operatorSign op)

/-- No sign goes on over a blank. -/
theorem pieces_operator (op : BinaryOp) (rest : List Char) :
    pieces ((operatorSign op).toList ++ ' ' :: rest) = (pieces rest).map (operatorPiece op :: ·) := by
  rw [← pieces_blank rest]
  cases op <;> exact pieces_sign rfl rfl rfl rfl rfl

/-- Pieces in parentheses. -/
def enclose (ps : List Piece) : List Piece :=
  .sign "(" :: (ps ++ [.sign ")"])

/-- `Reads k ps tree`: the pieces are an expression, with the operations of the tree, whose operators
outside parentheses bind with at least `k`. -/
inductive Reads : Nat → List Piece → OperatorTree String → Prop
  | operand {k : Nat} {p : Piece} {text : String} : p.operand? = some text →
      Reads k [p] (.leaf text)
  | parens {k : Nat} {ps : List Piece} {tree : OperatorTree String} : Reads 1 ps tree →
      Reads k (enclose ps) tree
  | binary {k : Nat} {op : BinaryOp} {ps qs : List Piece} {left right : OperatorTree String} :
      k ≤ level op → Reads (level op) ps left → Reads (level op + 1) qs right →
      Reads k (ps ++ operatorPiece op :: qs) (.node op left right)

/-- The text is an expression with the operations of the tree. -/
def Reading (text : String) (tree : OperatorTree String) : Prop :=
  ∃ ps, pieces text.toList = some ps ∧ Reads 1 ps tree

/-! ## Counting operators -/

def Piece.isOperator : Piece → Bool
  | .sign text => text != "(" && text != ")" && text != "\x7b" && text != "\x7d"
  | _ => false

theorem isOperator_operatorPiece (op : BinaryOp) : (operatorPiece op).isOperator = true := by
  cases op <;> rfl

theorem countP_operation (op : BinaryOp) (ps qs : List Piece) :
    (ps ++ operatorPiece op :: qs).countP Piece.isOperator =
      ps.countP Piece.isOperator + 1 + qs.countP Piece.isOperator := by
  rw [List.countP_append, List.countP_cons_of_pos (isOperator_operatorPiece op), Nat.add_assoc,
    Nat.add_comm 1]

theorem countP_enclose (ps : List Piece) :
    (enclose ps).countP Piece.isOperator = ps.countP Piece.isOperator := by
  rw [enclose, List.countP_cons_of_neg (by decide), List.countP_append]
  rfl

/-- A reading has as many operations as there are operators. -/
theorem countP_of_reads {k : Nat} {ps : List Piece} {tree : OperatorTree String}
    (h : Reads k ps tree) : ps.countP Piece.isOperator = tree.operations := by
  induction h with
  | @operand k p text hp =>
    cases p with
    | word text => rfl
    | number text => rfl
    | sign text => cases hp
  | parens _ ih => rw [countP_enclose, ih]
  | binary _ _ _ ihleft ihright => rw [countP_operation, ihleft, ihright, OperatorTree.operations]

/-! ## Brackets -/

def Piece.weight (p : Piece) : Int :=
  if p = .sign "(" then 1 else if p = .sign ")" then -1 else 0

/-- How many parentheses are open behind the pieces. -/
def depth (ps : List Piece) : Int :=
  (ps.map Piece.weight).sum

@[simp] theorem depth_append (ps qs : List Piece) : depth (ps ++ qs) = depth ps + depth qs := by
  rw [depth, List.map_append, List.sum_append]
  rfl

@[simp] theorem depth_cons (p : Piece) (ps : List Piece) : depth (p :: ps) = p.weight + depth ps :=
  rfl

@[simp] theorem weight_operatorPiece (op : BinaryOp) : (operatorPiece op).weight = 0 := by
  cases op <;> rfl

theorem weight_of_operand {p : Piece} {text : String} (h : p.operand? = some text) :
    p.weight = 0 := by
  cases p with
  | word text => rfl
  | number text => rfl
  | sign text => cases h

/-- Every parenthesis is closed, and none before it is opened. -/
structure Balanced (ps : List Piece) : Prop where
  total : depth ps = 0
  initial : ∀ {xs ys : List Piece}, ps = xs ++ ys → 0 ≤ depth xs

theorem balanced_singleton {p : Piece} (h : p.weight = 0) : Balanced [p] := by
  refine ⟨?_, fun {xs ys} heq => ?_⟩
  · rw [depth_cons, h]
    rfl
  · rcases List.append_eq_singleton_iff.mp heq.symm with ⟨rfl, _⟩ | ⟨rfl, _⟩
    · exact Int.le_refl 0
    · rw [depth_cons, h]
      exact Int.le_refl 0

theorem Balanced.append {ps qs : List Piece} (h : Balanced ps) (h' : Balanced qs) :
    Balanced (ps ++ qs) := by
  refine ⟨?_, fun {xs ys} heq => ?_⟩
  · rw [depth_append, h.total, h'.total]
    rfl
  · rcases List.append_eq_append_iff.mp heq with ⟨zs, rfl, hqs⟩ | ⟨zs, hps, _⟩
    · rw [depth_append, h.total, Int.zero_add]
      exact h'.initial hqs
    · exact h.initial hps

/-- Behind the opening parenthesis and before the closing one, a parenthesis is open. -/
theorem depth_pos_of_enclose {ps xs ys : List Piece} (h : Balanced ps) (hxs : xs ≠ [])
    (hys : ys ≠ []) (heq : enclose ps = xs ++ ys) : 0 < depth xs := by
  obtain ⟨x, xs, rfl⟩ := List.exists_cons_of_ne_nil hxs
  obtain ⟨rfl, hrest⟩ := List.cons.inj heq
  have hopen : (Piece.sign "(").weight = 1 := rfl
  rw [depth_cons, hopen]
  rcases List.append_eq_append_iff.mp hrest with ⟨zs, rfl, hzs⟩ | ⟨zs, hps, _⟩
  · -- What stands before the last piece is all of `ps`.
    rcases List.append_eq_singleton_iff.mp hzs.symm with ⟨rfl, _⟩ | ⟨_, rfl⟩
    · rw [List.append_nil, h.total]
      exact Int.one_pos
    · exact absurd rfl hys
  · have hle := h.initial hps
    omega

theorem Balanced.enclose {ps : List Piece} (h : Balanced ps) : Balanced (enclose ps) := by
  refine ⟨?_, fun {xs ys} heq => ?_⟩
  · rw [Script.enclose, depth_cons, depth_append, h.total]
    rfl
  · cases hxs : xs with
    | nil => exact Int.le_refl 0
    | cons x xs' =>
      rw [← hxs]
      cases hys : ys with
      | nil =>
        rw [hys, List.append_nil] at heq
        rw [← heq, Script.enclose, depth_cons, depth_append, h.total]
        decide
      | cons y ys' =>
        exact Int.le_of_lt (depth_pos_of_enclose h (by simp [hxs]) (by simp [hys]) heq)

theorem balanced_of_reads {k : Nat} {ps : List Piece} {tree : OperatorTree String}
    (h : Reads k ps tree) : Balanced ps := by
  induction h with
  | operand hp => exact balanced_singleton (weight_of_operand hp)
  | parens _ ih => exact ih.enclose
  | @binary k op ps qs left right _ _ _ ihleft ihright =>
    have hop : Balanced [operatorPiece op] := balanced_singleton (weight_operatorPiece op)
    exact ihleft.append (hop.append ihright)

theorem reads_ne_nil {k : Nat} {ps : List Piece} {tree : OperatorTree String}
    (h : Reads k ps tree) : ps ≠ [] := by
  cases h with
  | operand _ => exact List.cons_ne_nil _ _
  | parens _ => exact List.cons_ne_nil _ _
  | binary _ _ _ => simp

/-- An operation is not a whole in parentheses. -/
theorem enclose_ne_operation {ps xs ys : List Piece} {p : Piece} (h : Balanced ps) (hxs : xs ≠ [])
    (hdepth : depth xs = 0) : enclose ps ≠ xs ++ p :: ys := by
  intro heq
  have hpos := depth_pos_of_enclose h hxs (List.cons_ne_nil _ _) heq
  omega

/-! ## One reading -/

theorem operatorPiece_injective {op op' : BinaryOp} (h : operatorPiece op = operatorPiece op') :
    op = op' := by
  revert h
  cases op <;> cases op' <;> decide

/-- An operator outside parentheses binds with at least the level of the whole. -/
theorem level_le_of_reads {k : Nat} {ps : List Piece} {tree : OperatorTree String}
    (h : Reads k ps tree) {xs ys : List Piece} {op : BinaryOp}
    (heq : ps = xs ++ operatorPiece op :: ys) (hdepth : depth xs = 0) : k ≤ level op := by
  induction h generalizing xs ys with
  | @operand k p text hp =>
    rcases List.append_eq_singleton_iff.mp heq.symm with ⟨_, hop⟩ | ⟨_, hop⟩
    · obtain ⟨rfl, _⟩ := List.cons.inj hop
      cases hp
    · cases hop
  | @parens k ps tree h _ =>
    cases hxs : xs with
    | nil =>
      rw [hxs] at heq
      have hopen : Piece.sign "(" = operatorPiece op := (List.cons.inj heq).1
      cases op <;> exact absurd hopen (by decide)
    | cons x xs' =>
      exact absurd heq (enclose_ne_operation (balanced_of_reads h) (by simp [hxs]) hdepth)
  | @binary k top ps qs left right hk hleft _ ihleft ihright =>
    rcases List.append_eq_append_iff.mp heq with ⟨zs, rfl, hzs⟩ | ⟨zs, hps, hzs⟩
    · cases zs with
      | nil =>
        obtain ⟨hop, _⟩ := List.cons.inj hzs
        rw [← operatorPiece_injective hop]
        exact hk
      | cons z zs =>
        -- The operator stands right of the topmost one.
        obtain ⟨rfl, hqs⟩ := List.cons.inj hzs
        rw [depth_append, depth_cons, (balanced_of_reads hleft).total, weight_operatorPiece] at hdepth
        have hlevel := ihright hqs (by omega)
        omega
    · cases zs with
      | nil =>
        obtain ⟨hop, _⟩ := List.cons.inj hzs
        rw [operatorPiece_injective hop]
        exact hk
      | cons z zs =>
        -- It stands left of it.
        obtain ⟨rfl, _⟩ := List.cons.inj hzs
        exact Nat.le_trans hk (ihleft hps hdepth)

/-- Two readings of one operation have the same topmost operator, at the same place. -/
theorem binary_split {op op' : BinaryOp} {ps qs ps' qs' : List Piece}
    {left right left' right' : OperatorTree String}
    (hleft : Reads (level op) ps left) (hright : Reads (level op + 1) qs right)
    (hleft' : Reads (level op') ps' left') (hright' : Reads (level op' + 1) qs' right')
    (heq : ps ++ operatorPiece op :: qs = ps' ++ operatorPiece op' :: qs') :
    op = op' ∧ ps = ps' ∧ qs = qs' := by
  -- Of two places, the left one binds as tightly as the right one, and the right one more tightly.
  have hno : ∀ {op op' : BinaryOp} {ps qs qs' zs : List Piece} {tree tree' : OperatorTree String},
      depth ps = 0 → Reads (level op + 1) qs tree →
      Reads (level op') (ps ++ operatorPiece op :: zs) tree' →
      qs = zs ++ operatorPiece op' :: qs' → False := by
    intro op op' ps qs qs' zs tree tree' hdepth hqs hps heq
    have hle := level_le_of_reads hps rfl hdepth
    have hzs : depth zs = 0 := by
      have htotal := (balanced_of_reads hps).total
      rw [depth_append, depth_cons, weight_operatorPiece] at htotal
      omega
    have hlt := level_le_of_reads hqs heq hzs
    omega
  rcases List.append_eq_append_iff.mp heq with ⟨zs, rfl, hzs⟩ | ⟨zs, rfl, hzs⟩
  · cases zs with
    | nil =>
      obtain ⟨hop, hqs⟩ := List.cons.inj hzs
      exact ⟨operatorPiece_injective hop, (List.append_nil _).symm, hqs⟩
    | cons z zs =>
      obtain ⟨rfl, hqs⟩ := List.cons.inj hzs
      exact (hno (balanced_of_reads hleft).total hright hleft' hqs).elim
  · cases zs with
    | nil =>
      obtain ⟨hop, hqs⟩ := List.cons.inj hzs
      exact ⟨(operatorPiece_injective hop).symm, List.append_nil _, hqs.symm⟩
    | cons z zs =>
      obtain ⟨rfl, hqs⟩ := List.cons.inj hzs
      exact (hno (balanced_of_reads hleft').total hright' hleft hqs).elim

theorem enclose_injective {ps qs : List Piece} (h : enclose ps = enclose qs) : ps = qs :=
  List.append_cancel_right (List.cons.inj h).2

theorem enclose_ne_singleton {ps : List Piece} {p : Piece} : enclose ps ≠ [p] := by
  simp [enclose]

theorem operation_ne_singleton {ps qs : List Piece} {p q : Piece} (hps : ps ≠ []) :
    ps ++ p :: qs ≠ [q] := by
  intro heq
  rcases List.append_eq_singleton_iff.mp heq with ⟨rfl, _⟩ | ⟨_, hnil⟩
  · exact hps rfl
  · cases hnil

/-- Pieces have one reading at most. -/
theorem reads_unique {k k' : Nat} {ps : List Piece} {tree tree' : OperatorTree String}
    (h : Reads k ps tree) (h' : Reads k' ps tree') : tree = tree' := by
  induction h generalizing k' tree' with
  | @operand k p text hp =>
    generalize hps : [p] = ps at h'
    cases h' with
    | operand hp' =>
      cases hps
      rw [hp] at hp'
      rw [Option.some.inj hp']
    | parens _ => exact absurd hps.symm enclose_ne_singleton
    | binary _ hleft _ => exact absurd hps.symm (operation_ne_singleton (reads_ne_nil hleft))
  | @parens k ps tree h ih =>
    generalize hqs : enclose ps = qs at h'
    cases h' with
    | operand _ => exact absurd hqs enclose_ne_singleton
    | parens h' =>
      rw [← enclose_injective hqs] at h'
      exact ih h'
    | binary _ hleft _ =>
      have hbalanced := balanced_of_reads hleft
      exact absurd hqs
        (enclose_ne_operation (balanced_of_reads h) (reads_ne_nil hleft) hbalanced.total)
  | @binary k op ps qs left right _ hleft hright ihleft ihright =>
    generalize hrs : ps ++ operatorPiece op :: qs = rs at h'
    cases h' with
    | operand _ => exact absurd hrs (operation_ne_singleton (reads_ne_nil hleft))
    | parens h' =>
      have hbalanced := balanced_of_reads hleft
      exact absurd hrs.symm
        (enclose_ne_operation (balanced_of_reads h') (reads_ne_nil hleft) hbalanced.total)
    | binary _ hleft' hright' =>
      obtain ⟨rfl, rfl, rfl⟩ := binary_split hleft hright hleft' hright' hrs
      rw [ihleft hleft', ihright hright']

theorem reading_unique {text : String} {tree tree' : OperatorTree String} (h : Reading text tree)
    (h' : Reading text tree') : tree = tree' := by
  obtain ⟨ps, hps, hreads⟩ := h
  obtain ⟨ps', hps', hreads'⟩ := h'
  rw [hps] at hps'
  obtain rfl : ps = ps' := Option.some.inj hps'
  exact reads_unique hreads hreads'

/-- So reading a text is a function that may fail. -/
theorem exists_reading (text : String) :
    ∃ result : Option (OperatorTree String), ∀ tree, Reading text tree ↔ result = some tree := by
  by_cases h : ∃ tree, Reading text tree
  · obtain ⟨tree, htree⟩ := h
    refine ⟨some tree, fun tree' => ⟨fun htree' => ?_, ?_⟩⟩
    · rw [reading_unique htree htree']
    · rintro ⟨⟩
      exact htree
  · refine ⟨none, fun tree => ⟨fun htree => absurd ⟨tree, htree⟩ h, ?_⟩⟩
    rintro ⟨⟩

end Script

end Polyglot
