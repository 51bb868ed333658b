import Polyglot.Proofs.Block.Moved
import Polyglot.Proofs.Block.Places
import Polyglot.Proofs.Decl.Proper
import Polyglot.Proofs.Token.Identifiers

/-!
# The form of a block and the form of its declaration

The form of a block is taken from its raw heading lines, before any token is scanned; the grammar
then decides by tokens whether an equation defines a function or a constant. The two agree.

The link are the words at the start of a heading line. If the line can be scanned at all, they are
its first tokens (`Scans.heads`). Behind a signature the grammar looks for its equation at the start
of a line, and no line but the second can be that: a signature holds no equals sign, so the second
line does not belong to it (`starts_line`).

Results:
1. `form?_of_read`: what is read from a block has the form of the block's text.
2. `read_form_agrees`: that form does not depend on where the block stands, and it is the hint of a
   block that is cut from a text.
-/

namespace Polyglot

/-! ## Headings -/

def Lexeme.isWord : Lexeme → Bool
  | .ident _ | .keyword _ => true
  | _ => false

theorem Lexeme.isWord_ofWord (word : String) : (ofWord word).isWord = true := by
  unfold ofWord
  split <;> rfl

/-- The number of words that tokens start with, and what follows these words. -/
def heading : List Token → Nat × Option Lexeme
  | [] => (0, none)
  | t :: ts => if t.lexeme.isWord then ((heading ts).1 + 1, (heading ts).2) else (0, some t.lexeme)

theorem heading_word {t : Token} (h : t.lexeme.isWord = true) (ts : List Token) :
    heading (t :: ts) = ((heading ts).1 + 1, (heading ts).2) := by
  rw [heading, if_pos h]

theorem heading_symbol {t : Token} {sign : Symbol} (h : t.lexeme = .symbol sign)
    (ts : List Token) : heading (t :: ts) = (0, some (.symbol sign)) := by
  rw [heading, h]
  rfl

theorem heading_idents {params : List Token} {names : List String}
    (h : params.map Token.lexeme = names.map Lexeme.ident) (ts : List Token) :
    heading (params ++ ts) = (names.length + (heading ts).1, (heading ts).2) := by
  induction params generalizing names with
  | nil =>
    rw [List.map_nil] at h
    rw [List.map_eq_nil_iff.mp h.symm]
    simp
  | cons t params ih =>
    obtain ⟨name, names, rfl, hname, hnames⟩ := List.map_eq_cons_iff.mp h.symm
    rw [List.cons_append, heading_word (by rw [← hname]; rfl), ih hnames.symm, List.length_cons,
      Nat.add_right_comm]

/-- Tokens start with `count` words and a symbol that starts with `c`, whatever follows them. -/
def Heads (count : Nat) (c : Char) (ts : List Token) : Prop :=
  ∃ sign, (∀ more, heading (ts ++ more) = (count, some (.symbol sign))) ∧
    (∃ t ∈ ts, t.lexeme = .symbol sign) ∧ sign.spelling.toList.head? = some c

theorem Heads.cons {count : Nat} {c : Char} {t : Token} {ts : List Token} (h : Heads count c ts)
    (ht : t.lexeme.isWord = true) : Heads (count + 1) c (t :: ts) := by
  obtain ⟨sign, hheading, ⟨u, hu, hsign⟩, hc⟩ := h
  refine ⟨sign, fun more => ?_, ⟨u, List.mem_cons_of_mem t hu, hsign⟩, hc⟩
  rw [List.cons_append, heading_word ht, hheading more]

theorem Scans.heads_symbol {line : Int} {col last : Nat} {c : Char} {cs : List Char}
    {ts : List Token} (hc : c = '=' ∨ c = ':') (h : Scans line col (c :: cs) ts last) :
    Heads 0 c ts := by
  cases h with
  | gap hgap _ => rcases hc with rfl | rfl <;> exact absurd hgap (by decide)
  | comment => rcases hc with h | h <;> exact absurd h (by decide)
  | @lexeme _ _ _ part rest l us _ hread hspelling _ =>
    have hsign : ∃ sign, l = .symbol sign := by
      unfold readLexeme at hread
      rw [if_neg (by rcases hc with rfl | rfl <;> decide),
        if_neg (by rcases hc with rfl | rfl <;> decide),
        if_neg (by rcases hc with rfl | rfl <;> decide)] at hread
      split at hread
      · next sign _ =>
        cases hread
        exact ⟨sign, rfl⟩
      · cases hread
    obtain ⟨sign, rfl⟩ := hsign
    refine ⟨sign, fun more => heading_symbol rfl _, ⟨_, List.mem_cons_self, rfl⟩, ?_⟩
    rw [show sign.spelling.toList = c :: part from hspelling]
    rfl

theorem isNamePart_of_isBlank {c : Char} (h : Text.isBlank c = true) : isNamePart c = false := by
  cases hc : isNamePart c with
  | false => rfl
  | true =>
    rw [isBlank_of_isNamePart hc] at h
    cases h

/-- A name ends before blanks, and before a character that no name holds. -/
theorem not_isNamePart_head {blanks rest : List Char} {c : Char}
    (hblanks : ∀ d ∈ blanks.head?, Text.isBlank d = true) (hc : isNamePart c = false) :
    ∀ d ∈ (blanks ++ c :: rest).head?, isNamePart d = false := by
  intro d hd
  cases blanks with
  | nil =>
    cases hd
    exact hc
  | cons e blanks =>
    cases hd
    exact isNamePart_of_isBlank (hblanks d rfl)

/-- Identifiers before a colon or an equals sign are the first tokens of a line. -/
theorem Scans.heads {line : Int} {col last : Nat} {c : Char} {cs rest : List Char}
    {ts : List Token} (hc : c = '=' ∨ c = ':')
    (hwords : ∀ word ∈ Text.words cs, Text.isIdentifier word = true)
    (h : Scans line col (cs ++ c :: rest) ts last) : Heads (Text.words cs).length c ts := by
  -- on the length, since a word is taken at once
  induction hn : cs.length using Nat.strongRecOn generalizing col cs ts with
  | ind n ih =>
    subst hn
    cases cs with
    | nil => exact h.heads_symbol hc
    | cons d cs =>
      cases hd : Text.isBlank d with
      | true =>
        rw [Text.words_cons_blank hd] at hwords ⊢
        obtain ⟨col', hscans⟩ := h.behind_blank hd
        exact ih cs.length (Nat.lt_succ_self _) hwords hscans rfl
      | false =>
        obtain ⟨word, others, rfl, hblank, hcut⟩ := Text.words_cons_visible hd cs
        rw [hcut, List.forall_mem_cons] at hwords
        have hsign : isNamePart c = false := by rcases hc with rfl | rfl <;> decide
        rw [← List.cons_append, List.append_assoc] at h
        obtain ⟨us, col', rfl, hscans⟩ :=
          h.identifier hwords.1 (not_isNamePart_head hblank hsign)
        have hshorter : others.length < (d :: (word ++ others)).length := by
          rw [List.length_cons, List.length_append]
          exact Nat.lt_succ_of_le (Nat.le_add_left _ _)
        rw [hcut]
        exact (ih others.length hshorter hwords.2 hscans rfl).cons (Lexeme.isWord_ofWord _)

/-! ## Heading lines -/

/-- Trimming takes blanks off both ends. -/
theorem Text.exists_trim (cs : List Char) :
    ∃ front back, cs = front ++ (Text.trim cs ++ back) ∧ (∀ c ∈ front, Text.isBlank c = true) ∧
      ∀ c ∈ back, Text.isBlank c = true := by
  have hfront : cs.takeWhile Text.isBlank ++ cs.dropWhile Text.isBlank = cs :=
    List.takeWhile_append_dropWhile
  generalize hinner : cs.dropWhile Text.isBlank = inner at hfront
  have hback : inner.reverse.takeWhile Text.isBlank ++ inner.reverse.dropWhile Text.isBlank =
      inner.reverse := List.takeWhile_append_dropWhile
  have hcut : inner = (inner.reverse.dropWhile Text.isBlank).reverse ++
      (inner.reverse.takeWhile Text.isBlank).reverse := by
    rw [← List.reverse_append, hback, List.reverse_reverse]
  refine ⟨cs.takeWhile Text.isBlank, (inner.reverse.takeWhile Text.isBlank).reverse, ?_,
    List.all_eq_true.mp List.all_takeWhile, fun c hc => ?_⟩
  · rw [Text.trim, hinner, ← hcut, hfront]
  · exact List.all_eq_true.mp List.all_takeWhile c (List.mem_reverse.mp hc)

namespace Heading

theorem exists_before {c : Char} {cs : List Char} (h : cs.contains c = true) :
    ∃ rest, cs = before c cs ++ c :: rest := by
  induction cs with
  | nil => cases h
  | cons d cs ih =>
    by_cases hd : d = c
    · subst hd
      exact ⟨cs, by simp [before]⟩
    · obtain ⟨rest, hrest⟩ := ih (by simpa [Ne.symm hd] using h)
      refine ⟨rest, ?_⟩
      rw [before, List.takeWhile_cons_of_pos (by simpa using hd), List.cons_append]
      exact congrArg (d :: ·) hrest

/-- The tokens of an equation's line start with its words and an equals sign. -/
theorem heads_equation {line : String} {form : Form} {number : Int} {col last : Nat}
    {ts : List Token} (hform : equationForm line = some form)
    (h : Scans number col line.toList ts last) :
    ∃ count, Heads count '=' ts ∧ form = if 1 < count then .function else .const := by
  obtain ⟨words, hwords, rfl⟩ := Option.map_eq_some_iff.mp hform
  unfold equationWords at hwords
  dsimp only at hwords
  split at hwords
  · next hline =>
    cases hwords
    rw [Bool.and_eq_true, Bool.and_eq_true, List.all_eq_true] at hline
    obtain ⟨rest, hrest⟩ := exists_before hline.1.1
    rw [hrest] at h
    exact ⟨_, h.heads (.inl rfl) hline.2, by rw [List.length_map]⟩
  · cases hwords

/-- The tokens of a signature's line start with its name and a colon. -/
theorem heads_signature {line : String} {number : Int} {col last : Nat} {ts : List Token}
    (hname : (signatureName line).isSome = true) (h : Scans number col line.toList ts last) :
    Heads 1 ':' ts := by
  unfold signatureName at hname
  dsimp only at hname
  split at hname
  · next hline =>
    rw [Bool.and_eq_true] at hline
    obtain ⟨rest, hrest⟩ := exists_before hline.1
    obtain ⟨front, back, htrim, hfront, hback⟩ :=
      Text.exists_trim (before ':' (before '=' line.toList))
    generalize Text.trim (before ':' (before '=' line.toList)) = name at hline htrim
    have hcut : line.toList =
        front ++ (name ++ (back ++ ':' :: (rest ++ line.toList.dropWhile (· != '=')))) := by
      conv_lhs => rw [← List.takeWhile_append_dropWhile (p := (· != '=')) (l := line.toList)]
      rw [show line.toList.takeWhile (· != '=') = before '=' line.toList from rfl, hrest, htrim]
      simp only [List.append_assoc, List.cons_append]
    rw [hcut] at h
    obtain ⟨_, hscans⟩ := h.behind_blanks hfront
    have hblank : ∀ c ∈ back.head?, Text.isBlank c = true :=
      fun c hc => hback c (List.mem_of_mem_head? hc)
    obtain ⟨us, _, rfl, hbehind⟩ :=
      hscans.identifier hline.2 (not_isNamePart_head hblank (by decide))
    obtain ⟨_, hcolon⟩ := hbehind.behind_blanks hback
    exact (hcolon.heads_symbol (.inr rfl)).cons (Lexeme.isWord_ofWord _)
  · cases hname

end Heading

/-! ## The tokens of an equation -/

/-- The form of a declaration. -/
def Decl.form? : Decl → Option Form
  | .union _ => some .union
  | .function _ => some .function
  | .const _ => some .const
  | .unknown _ => none

namespace Grammar

theorem assignTypes_length {names : List String} {types : List Ty} {bindings : List Binding}
    {result : Ty} (h : assignTypes names types = some (bindings, result)) :
    bindings.length = names.length := by
  fun_induction assignTypes names types generalizing bindings result with
  | case1 ty =>
    cases h
    rfl
  | case2 name names ty types ih =>
    obtain ⟨⟨others, last⟩, hrest, heq⟩ := Option.map_eq_some_iff.mp h
    cases heq
    rw [List.length_cons, List.length_cons, ih hrest]
  | case3 => cases h

theorem form?_declaration (equation : Equation) :
    (declaration equation).form? =
      some (if 0 < equation.params.length then .function else .const) := by
  unfold declaration
  cases equation.params <;> rfl

/-- An equation makes a function exactly if it has parameters. -/
theorem form?_of_declare {declared : Option (String × List Ty)} {name : String} {pos : Position}
    {names : List String} {body : Expr} {decl : Decl}
    (h : declare declared name pos names body = .ok decl) :
    decl.form? = some (if 0 < names.length then .function else .const) := by
  cases declared with
  | none =>
    cases h
    rw [form?_declaration, List.length_map]
  | some found =>
    rw [declare] at h
    split at h
    · cases h
    · dsimp only at h
      split at h
      · next hassign =>
        cases h
        rw [form?_declaration, assignTypes_length hassign]
      · cases h

theorem heading_clause {declared : Option (String × List Ty)} {ts : List Token} {decl : Decl}
    (h : DerivesClause declared ts decl) :
    ∃ count, heading ts = (count, some (.symbol .equals)) ∧
      decl.form? = some (if 1 < count then .function else .const) := by
  cases h with
  | @mk name pos params ts names equals body decl hparams hequals _ hdecl =>
    refine ⟨names.length + 1, ?_, ?_⟩
    · rw [heading_word rfl, heading_idents hparams, heading_symbol hequals]
      rfl
    · rw [form?_of_declare hdecl]
      simp only [Nat.lt_add_left_iff_pos]

theorem heading_signature {ts : List Token} {name : String} {types : List Ty}
    (h : DerivesSignature ts name types) (more : List Token) :
    heading (ts ++ more) = (1, some (.symbol .colon)) := by
  cases h with
  | mk hcolon _ _ =>
    rw [List.cons_append, List.cons_append, heading_word rfl, heading_symbol hcolon]

/-- The lexemes of a signature. -/
def isSignaturePart : Lexeme → Bool
  | .ident _ => true
  | .symbol sign => sign ∈ [.colon, .arrow, .openParen, .closeParen]
  | _ => false

theorem isSignaturePart_of_type {rule : TypeRule} {ts : List Token} {ty : Ty}
    (h : DerivesType rule ts ty) : ∀ t ∈ ts, isSignaturePart t.lexeme = true := by
  refine derivesType_induction (motive := fun _ ts _ => ∀ t ∈ ts, isSignaturePart t.lexeme = true)
    (fun {rule ts ty} h ih => ?_) h
  cases h with
  | @paren opening closing ts us first rest hopening hfirst hrest hclosing =>
    intro t ht
    simp only [List.mem_cons, List.mem_append, List.not_mem_nil, or_false] at ht
    rcases ht with rfl | ht | ht | rfl
    · rw [hopening]
      rfl
    · exact ih hfirst (.inl (by grind)) t ht
    · obtain ⟨_, _, hpart, hafter, htw⟩ := hrest.exists_phrase ht
      cases hafter with
      | @mk arrow ws ty harrow hws =>
        have hlength := hpart.length_le
        rcases List.mem_cons.mp htw with rfl | htw
        · rw [harrow]
          rfl
        · exact ih hws (.inl (by grind)) t htw
    · rw [hclosing]
      rfl
  | element h | argument h => exact ih h (.inr ⟨rfl, rfl, by decide⟩)
  | @applied name pos ts args hargs =>
    refine List.forall_mem_cons.mpr ⟨rfl, fun t ht => ?_⟩
    obtain ⟨_, _, hpart, hinline, htw⟩ := hargs.exists_phrase ht
    have hlength := hpart.length_le
    cases hinline with
    | mk hws _ => exact ih hws (.inl (by grind)) t htw
  | name => exact List.forall_mem_singleton.mpr rfl

theorem isSignaturePart_of_signature {ts : List Token} {name : String} {types : List Ty}
    (h : DerivesSignature ts name types) : ∀ t ∈ ts, isSignaturePart t.lexeme = true := by
  cases h with
  | @mk name pos colon ts us first rest hcolon hfirst hrest =>
    intro t ht
    simp only [List.mem_cons, List.mem_append] at ht
    rcases ht with rfl | rfl | ht | ht
    · rfl
    · rw [hcolon]
      rfl
    · exact isSignaturePart_of_type hfirst t ht
    · obtain ⟨_, _, _, hafter, htw⟩ := hrest.exists_phrase ht
      cases hafter with
      | @mk arrow ws ty harrow hws =>
        rcases List.mem_cons.mp htw with rfl | htw
        · rw [harrow]
          rfl
        · exact isSignaturePart_of_type hws t htw

/-- No signature holds all the tokens of an equation's line. -/
theorem not_subset_signature {signed ts : List Token} {name : String} {types : List Ty}
    (h : DerivesSignature signed name types) {count : Nat} (hts : Heads count '=' ts) :
    ¬ ts ⊆ signed := by
  intro hsubset
  obtain ⟨sign, _, ⟨t, ht, hsign⟩, hspelling⟩ := hts
  have hpart := isSignaturePart_of_signature h t (hsubset ht)
  rw [hsign] at hpart
  cases sign <;> first | exact absurd hpart (by decide) | exact absurd hspelling (by decide)

/-- Behind a line's first token no token starts the line. -/
theorem eq_nil_of_starts {line : Int} {cs : List Char} {last : Nat} {ts front back : List Token}
    {t : Token} (h : Scans line 1 cs ts last) (hcut : ts = front ++ t :: back)
    (hcol : t.pos.col = 1) : front = [] := by
  cases front with
  | nil => rfl
  | cons u front =>
    have hsorted := h.sorted
    rw [hcut, List.cons_append, List.pairwise_cons] at hsorted
    have hlt := hsorted.1 t (List.mem_append_right front List.mem_cons_self)
    have hle := (h.onLine.1 u (by rw [hcut]; exact List.mem_cons_self)).2.1
    rw [hcol] at hlt
    exact absurd hle (Nat.not_le.mpr hlt)

/-- The equation behind a signature is the second line: the signature cannot end inside a line, and
it cannot hold the second line. -/
theorem starts_line {line : Int} {cs ds : List Char} {last last' count : Nat}
    {ts us more signed rest : List Token} {t : Token} {name : String} {types : List Ty}
    (hts : Scans line 1 cs ts last) (hus : Scans (line + 1) 1 ds us last')
    (hheads : Heads count '=' us) (hsigned : DerivesSignature signed name types)
    (hcol : t.pos.col = 1) (hcut : signed ++ t :: rest = ts ++ (us ++ more)) :
    t :: rest = us ++ more := by
  have hne : signed ≠ [] := by
    cases hsigned
    exact List.cons_ne_nil _ _
  rcases List.append_eq_append_iff.mp hcut with ⟨as, rfl, has⟩ | ⟨as, rfl, has⟩
  · cases as with
    | nil => exact has
    | cons u as =>
      obtain ⟨rfl, _⟩ := List.cons.inj has
      exact absurd (eq_nil_of_starts hts rfl hcol) hne
  · have hout := not_subset_signature hsigned hheads
    rcases List.append_eq_append_iff.mp has with ⟨bs, rfl, _⟩ | ⟨bs, rfl, hbs⟩
    · exact absurd (fun u hu => List.mem_append_right ts (List.mem_append_left bs hu)) hout
    · cases bs with
      | nil =>
        rw [List.append_nil] at hout
        exact absurd (List.subset_append_right ts as) hout
      | cons u bs =>
        obtain ⟨rfl, rfl⟩ := List.cons.inj hbs
        rw [eq_nil_of_starts hus rfl hcol]
        rfl

end Grammar

/-! ## Blocks -/

namespace Block

open Heading Grammar

/-- An equation's line and the clause that is read from it agree on the number of words. -/
theorem form?_of_clause {line : String} {form : Form} {number : Int} {last : Nat}
    {ts more : List Token} {declared : Option (String × List Ty)} {decl : Decl}
    (hform : equationForm line = some form) (h : Scans number 1 line.toList ts last)
    (hclause : DerivesClause declared (ts ++ more) decl) : decl.form? = some form := by
  obtain ⟨count, ⟨sign, hheading, _⟩, rfl⟩ := heads_equation hform h
  obtain ⟨count', hheading', hdecl⟩ := heading_clause hclause
  rw [hheading more] at hheading'
  cases hheading'
  exact hdecl

/-- An equation has the form of its heading lines. -/
theorem form?_of_equation {number : Int} {first : String} {rest : List String} {all : List Token}
    {form : Form} {decl : Decl} (hform : Heading.form (first :: rest) = some form)
    (hunion : form ≠ .union) (hscan : ScansLines number (first :: rest) all)
    (h : DerivesEquation all decl) : decl.form? = some form := by
  obtain ⟨ts, more, last, hts, hmore, rfl⟩ := hscan.exists_cons
  rw [Heading.form] at hform
  split at hform
  · cases hform
    exact absurd rfl hunion
  · split at hform
    · next hname =>
      -- the second line decides, and the signature is the first
      obtain ⟨sign, hheading, _, hcolon⟩ := heads_signature hname hts
      obtain ⟨second, others, rfl⟩ : ∃ second others, rest = second :: others := by
        cases rest with
        | nil => cases hform
        | cons second others => exact ⟨second, others, rfl⟩
      obtain ⟨us, more', last', hus, _, rfl⟩ := hmore.exists_cons
      obtain ⟨count, hheads, _⟩ := heads_equation hform hus
      generalize hall : ts ++ (us ++ more') = all at h
      cases h with
      | plain hclause =>
        obtain ⟨_, hequals, _⟩ := heading_clause hclause
        rw [← hall, hheading] at hequals
        cases hequals
        cases hcolon
      | signed hsigned hcol hclause =>
        rw [starts_line hts hus hheads hsigned hcol hall.symm] at hclause
        exact form?_of_clause hform hus hclause
    · obtain ⟨_, ⟨sign, hheading, _, hequals⟩, _⟩ := heads_equation hform hts
      generalize hall : ts ++ more = all at h
      cases h with
      | plain hclause =>
        rw [← hall] at hclause
        exact form?_of_clause hform hts hclause
      | @signed signed us t _ _ _ hsigned _ _ =>
        have hcolon := heading_signature hsigned (t :: us)
        rw [← hall, hheading] at hcolon
        cases hcolon
        cases hequals

/-- A blank line has no tokens, so what follows blank lines is classified and scanned alone. -/
theorem exists_of_classify {line number : Int} {lines : List String} {form : Form}
    {ts : List Token} (hform : classify line lines = .ok form) (hscan : ScansLines number lines ts) :
    ∃ number' first rest, Heading.form (first :: rest) = some form ∧
      ScansLines number' (first :: rest) ts := by
  fun_induction classify line lines generalizing number ts with
  | case1 => cases hform
  | case2 line first rest hblank ih =>
    obtain ⟨ts, more, last, hts, hmore, rfl⟩ := hscan.exists_cons
    rw [← List.append_nil first.toList] at hts
    obtain ⟨_, hnone⟩ := hts.behind_blanks (List.all_eq_true.mp hblank)
    cases hnone
    exact ih hform hmore
  | case3 line first rest hblank form hfound =>
    cases hform
    exact ⟨number, first, rest, hfound, hscan⟩
  | case4 => cases hform

/-- What is read from a block has the form of the block's text. -/
theorem form?_of_read {block : Block} {decl : Decl} (h : block.read = .ok decl) :
    ∃ form, formOf block.text (block.start + 1) = .ok form ∧ decl.form? = some form := by
  obtain ⟨form, found, hform, hscan, houtcome⟩ := read_eq_ok h
  refine ⟨form, hform, ?_⟩
  obtain ⟨after, hread⟩ := Parser.eq_ok_of_outcome houtcome
  have hequation (hunion : form ≠ .union)
      (h : equation (Cursor.ofScan found) = .ok decl after) : decl.form? = some form := by
    obtain ⟨_, first, rest, hlines, hscan'⟩ := exists_of_classify hform (scansLines_of_scan hscan)
    exact form?_of_equation hlines hunion hscan' (derivesEquation_of_ok h)
  cases form with
  | function => exact hequation (by decide) hread
  | const => exact hequation (by decide) hread
  | union =>
    obtain ⟨declared, _, _, hlast⟩ := Parser.bind_eq_ok hread
    cases hlast
    rfl

/-- The number of the first line is for diagnostics only. -/
theorem formOf_eq_ok {text : String} {line : Int} {form : Form} (h : formOf text line = .ok form)
    (line' : Int) : formOf text line' = .ok form := by
  have hmoved := classify_moved (line' - line) line (Text.lines text)
  rw [show classify line (Text.lines text) = .ok form from h, Int.add_comm, Int.sub_add_cancel]
    at hmoved
  exact hmoved

/-- A block of a text carries the form of its text as a hint. -/
theorem hint_eq {text : String} {block : Block} (hblock : block ∈ ofText text) {line : Int}
    {form : Form} (h : formOf block.text line = .ok form) : block.hint = some form := by
  obtain ⟨first, rest, hlines, hfirst⟩ := exists_first_line hblock
  rw [formOf, lines_text hblock, hlines, classify, hfirst, if_neg Bool.false_ne_true] at h
  rw [(segments_ofText text).hint_of_mem hblock, hlines]
  split at h
  · next hform =>
    cases h
    exact hform
  · cases h

/-- A block that can be read has the form of the declaration that is read, by its raw lines; and if
it is cut from a text, its hint names that form. -/
theorem read_form_agrees {block : Block} {decl : Decl} (h : block.read = .ok decl) :
    ∃ form, decl.form? = some form ∧ (∀ line, formOf block.text line = .ok form) ∧
      ∀ text, block ∈ ofText text → block.hint = some form := by
  obtain ⟨form, hform, hdecl⟩ := form?_of_read h
  exact ⟨form, hdecl, formOf_eq_ok hform, fun text hblock => hint_eq hblock hform⟩

/-- The raw lines are looked at with their comments. The equals sign in this one does not make the
first line an equation, for a colon stands before it. -/
theorem read_form_of_commented_signature :
    read ⟨some .function, 0, ["f : a -> b -- f = x", "f x =", "    x"]⟩ =
        .ok (.function ⟨"f", [⟨"x", .var "a"⟩], .var "b", .value "x"⟩) ∧
      ⟨some .function, 0, ["f : a -> b -- f = x", "f x =", "    x"]⟩ ∈
        ofText "f : a -> b -- f = x\nf x =\n    x\n" ∧
      ∃ form, Decl.form? (.function ⟨"f", [⟨"x", .var "a"⟩], .var "b", .value "x"⟩) = some form ∧
        (∀ line, formOf (text ⟨some .function, 0, ["f : a -> b -- f = x", "f x =", "    x"]⟩) line =
          .ok form) ∧
        ∀ source, ⟨some .function, 0, ["f : a -> b -- f = x", "f x =", "    x"]⟩ ∈ ofText source →
          some .function = some form := by
  have hread : read ⟨some .function, 0, ["f : a -> b -- f = x", "f x =", "    x"]⟩ =
      .ok (.function ⟨"f", [⟨"x", .var "a"⟩], .var "b", .value "x"⟩) := by decide +kernel
  exact ⟨hread, by decide +kernel, read_form_agrees hread⟩

end Block

end Polyglot
