import Polyglot.Proofs.Block.Layout

/-!
# Literals and the code around them

`cutCode` goes through a text from left to right and takes the string literals out: a quote opens
one, the next quote closes it, and a backslash takes the character behind it along. A literal that
its line does not close stops it. What is left is code, in which brackets are to be matched
(`isNested`).

Texts are written part by part, and a part may open a bracket that another one closes. `Weaves` says
of a part which literals it holds and which brackets it leaves open, and parts can be joined where
the open brackets meet.

Results:
1. `weaves_literal`: a body between quotes is one literal.
2. `Weaves.append`, `Chain.joined`: parts behind each other.
3. `Weaves.cutCode_eq`: what `Weaves` says of a whole text.
-/

namespace Polyglot

namespace Text

/-! ## Cutting -/

mutual

/-- The bodies of the literals in a text and the code around them. -/
def cutCode : List Char → Option (List String × List Char)
  | [] => some ([], [])
  | '"' :: cs => cutLiteral [] cs
  | c :: cs => (cutCode cs).map fun found => (found.1, c :: found.2)

/-- The same for a text that starts inside a literal, behind the part `body` of it. -/
def cutLiteral (body : List Char) : List Char → Option (List String × List Char)
  | [] => none
  | '"' :: cs => (cutCode cs).map fun found => (String.ofList body :: found.1, found.2)
  | '\n' :: _ => none
  | '\\' :: c :: cs => if c = '\n' then none else cutLiteral (body ++ ['\\', c]) cs
  | c :: cs => cutLiteral (body ++ [c]) cs

end

/-! ## Brackets -/

/-- The bracket that closes an opening one. -/
def closing? : Char → Option Char
  | '(' => some ')'
  | '[' => some ']'
  | '\x7b' => some '\x7d'
  | _ => none

def isClosing (c : Char) : Bool :=
  c == ')' || c == ']' || c == '\x7d'

/-- Reads a character of code, where the brackets `due` are still to come, the first one first. -/
def turn (due : List Char) (c : Char) : Option (List Char) :=
  match closing? c with
  | some d => some (d :: due)
  | none =>
      if isClosing c then
        match due with
        | [] => none
        | d :: rest => if c = d then some rest else none
      else
        some due

/-- Whether all brackets of a code are matched and nested. -/
def isNested (code : List Char) : Bool :=
  code.foldlM turn [] == some []

/-! ## Parts of a text -/

theorem cutCode_cons {c : Char} (hc : c ≠ '"') (cs : List Char) :
    cutCode (c :: cs) = (cutCode cs).map fun found => (found.1, c :: found.2) := by
  rw [cutCode]
  exact hc

/-- A literal ends at the quote behind its body. -/
theorem cutLiteral_append {body : List Char} (h : isStringBody body = true)
    (start rest : List Char) :
    cutLiteral start (body ++ '"' :: rest) =
      (cutCode rest).map fun found => (String.ofList (start ++ body) :: found.1, found.2) := by
  fun_induction isStringBody body generalizing start with
  | case1 => rw [List.nil_append, cutLiteral, List.append_nil]
  | case2 => cases h
  | case3 c cs ih =>
    rw [Bool.and_eq_true] at h
    have hc : c ≠ '\n' := by
      rintro rfl
      cases h.1
    rw [List.cons_append, List.cons_append, cutLiteral, if_neg hc, ih h.2, List.append_assoc]
    rfl
  | case4 c cs hlast hescape ih =>
    simp only [Bool.and_eq_true, bne_iff_ne, ne_eq] at h
    have hback : c ≠ '\\' := by
      rintro rfl
      cases cs with
      | nil => exact hlast rfl rfl
      | cons d ds => exact hescape d ds rfl rfl
    rw [List.cons_append, cutLiteral, ih h.2, List.append_assoc]
    · rfl
    · exact h.1.1
    · exact h.1.2
    · exact fun _ _ hc _ => hback hc

-- a literal has to close on its line
example : cutCode ['"', 'a', '\n', '"'] = none := rfl

theorem turn_append {due due' : List Char} {c : Char} (h : turn due c = some due')
    (more : List Char) : turn (due ++ more) c = some (due' ++ more) := by
  unfold turn at h ⊢
  split at h
  · cases h
    rfl
  · split at h
    · next hclosing =>
      rw [if_pos hclosing]
      cases due with
      | nil => cases h
      | cons d rest =>
        dsimp only at h
        split at h
        · next hc =>
          cases h
          exact if_pos hc
        · cases h
    · next hclosing =>
      cases h
      rw [if_neg hclosing]

theorem foldlM_turn_append {code due due' : List Char} (h : code.foldlM turn due = some due')
    (more : List Char) : code.foldlM turn (due ++ more) = some (due' ++ more) := by
  induction code generalizing due with
  | nil =>
    cases h
    rfl
  | cons c code ih =>
    rw [List.foldlM_cons] at h ⊢
    obtain ⟨mid, hturn, hrest⟩ := Option.bind_eq_some_iff.mp h
    rw [turn_append hturn more]
    exact ih hrest

/-- A part of a text in which the literals have the `bodies`. Before it, brackets are to come as in
`before`, behind it as in `after`. -/
def Weaves (before after : List Char) (text : String) (bodies : List String) : Prop :=
  ∃ code, (∀ rest, cutCode (text.toList ++ rest) =
    (cutCode rest).map fun found => (bodies ++ found.1, code ++ found.2)) ∧
      code.foldlM turn before = some after

/-- A part of code: no literal, and the brackets change as said. -/
def isCode (before after : List Char) (text : String) : Bool :=
  !text.toList.contains '"' && text.toList.foldlM turn before == some after

theorem cutCode_append {cs : List Char} (h : '"' ∉ cs) (rest : List Char) :
    cutCode (cs ++ rest) = (cutCode rest).map fun found => (found.1, cs ++ found.2) := by
  induction cs with
  | nil => rw [List.nil_append]; exact Option.map_id'.symm
  | cons c cs ih =>
    rw [List.mem_cons, not_or] at h
    rw [List.cons_append, cutCode_cons (Ne.symm h.1), ih h.2, Option.map_map]
    rfl

section Weaves

variable {before middle after : List Char} {text text' : String} {bodies bodies' : List String}

theorem weaves_code (after : List Char) (h : isCode before after text = true) :
    Weaves before after text [] := by
  rw [isCode, Bool.and_eq_true, Bool.not_eq_true', beq_iff_eq] at h
  have hquote : '"' ∉ text.toList := by simpa using h.1
  exact ⟨text.toList, fun rest => cutCode_append hquote rest, h.2⟩

/-- Brackets that were open before stay open. -/
theorem Weaves.frame (h : Weaves before after text bodies) (due : List Char) :
    Weaves (before ++ due) (after ++ due) text bodies := by
  obtain ⟨code, hcut, hturn⟩ := h
  exact ⟨code, hcut, foldlM_turn_append hturn due⟩

theorem Weaves.append (h : Weaves before middle text bodies)
    (h' : Weaves middle after text' bodies') :
    Weaves before after (text ++ text') (bodies ++ bodies') := by
  obtain ⟨code, hcut, hturn⟩ := h
  obtain ⟨code', hcut', hturn'⟩ := h'
  refine ⟨code ++ code', fun rest => ?_, ?_⟩
  · rw [String.toList_append, List.append_assoc, hcut, hcut', Option.map_map]
    refine congrArg (Option.map · _) (funext fun found => ?_)
    rw [Function.comp_apply, List.append_assoc, List.append_assoc]
  · rw [List.foldlM_append, hturn]
    exact hturn'

/-- Code behind a part; `after` are the brackets to come behind it. -/
theorem Weaves.code (h : Weaves before middle text bodies) (after : List Char)
    (hcode : isCode middle after text' = true) : Weaves before after (text ++ text') bodies := by
  have hall := h.append (weaves_code after hcode)
  rwa [List.append_nil] at hall

/-- A part behind another that may leave brackets open. -/
theorem Weaves.part (h : Weaves before after text bodies) (h' : Weaves [] [] text' bodies') :
    Weaves before after (text ++ text') (bodies ++ bodies') :=
  h.append (h'.frame after)

/-- A part without literals behind another. -/
theorem Weaves.plain (h : Weaves before after text bodies) (h' : Weaves [] [] text' []) :
    Weaves before after (text ++ text') bodies := by
  have hall := h.part h'
  rwa [List.append_nil] at hall

theorem Weaves.around (h : Weaves [] [] text bodies) {opening closing : String} (due : List Char)
    (hopening : isCode [] due opening = true) (hclosing : isCode due [] closing = true) :
    Weaves [] [] (opening ++ text ++ closing) bodies :=
  ((weaves_code due hopening).part h).code [] hclosing

theorem weaves_empty : Weaves [] [] "" [] :=
  weaves_code [] (by decide)

/-- A body between quotes is one literal. -/
theorem weaves_literal {body : String} (h : isStringBody body.toList = true) :
    Weaves [] [] ("\"" ++ body ++ "\"") [body] := by
  refine ⟨[], fun rest => ?_, rfl⟩
  have htext : ("\"" ++ body ++ "\"").toList ++ rest = '"' :: (body.toList ++ '"' :: rest) := by
    simp
  rw [htext, cutCode, cutLiteral_append h, List.nil_append, String.ofList_toList]
  rfl

/-- What a part says of a whole text. -/
theorem Weaves.cutCode_eq (h : Weaves [] [] text bodies) :
    ∃ code, cutCode text.toList = some (bodies, code) ∧ isNested code = true := by
  obtain ⟨code, hcut, hturn⟩ := h
  refine ⟨code, ?_, beq_iff_eq.mpr hturn⟩
  have hwhole := hcut []
  rw [List.append_nil, cutCode] at hwhole
  rw [hwhole, Option.map_some, List.append_nil, List.append_nil]

end Weaves

/-! ## Plain text -/

/-- A character that is neither a quote nor a bracket. -/
def isInert (c : Char) : Bool :=
  c != '"' && (closing? c).isNone && !isClosing c

theorem turn_of_isInert {c : Char} (h : isInert c = true) (due : List Char) :
    turn due c = some due := by
  simp only [isInert, Bool.and_eq_true, Option.isNone_iff_eq_none, Bool.not_eq_true'] at h
  unfold turn
  rw [h.1.2]
  exact if_neg (by rw [h.2]; exact Bool.false_ne_true)

theorem foldlM_turn_of_isInert {cs : List Char} (h : ∀ c ∈ cs, isInert c = true)
    (due : List Char) : cs.foldlM turn due = some due := by
  induction cs with
  | nil => rfl
  | cons c cs ih =>
    rw [List.forall_mem_cons] at h
    rw [List.foldlM_cons, turn_of_isInert h.1]
    exact ih h.2

theorem weaves_inert {text : String} (h : ∀ c ∈ text.toList, isInert c = true) :
    Weaves [] [] text [] := by
  have hquote : '"' ∉ text.toList := fun hmem => absurd (h _ hmem) (by decide)
  exact ⟨text.toList, fun rest => cutCode_append hquote rest, foldlM_turn_of_isInert h []⟩

theorem isInert_of_isNamePart {c : Char} (h : isNamePart c = true) : isInert c = true := by
  have hne {d : Char} (hd : isNamePart d = false) : c ≠ d := by
    rintro rfl
    rw [h] at hd
    cases hd
  have hclosing : closing? c = none := by
    unfold closing?
    split
    · exact absurd rfl (hne (by decide))
    · exact absurd rfl (hne (by decide))
    · exact absurd rfl (hne (by decide))
    · rfl
  have hopen : isClosing c = false := by
    rw [isClosing, beq_false_of_ne (hne (by decide)), beq_false_of_ne (hne (by decide)),
      beq_false_of_ne (hne (by decide))]
    rfl
  rw [isInert, hclosing, hopen, bne_iff_ne.mpr (hne (by decide))]
  rfl

theorem weaves_name {name : String} (h : isPlainName name) : Weaves [] [] name [] :=
  weaves_inert fun c hc => isInert_of_isNamePart ((isNamePart_of_isPlainName h).2 c hc)

theorem isStringBody_of_isNamePart {cs : List Char} (h : ∀ c ∈ cs, isNamePart c = true) :
    isStringBody cs = true := by
  have hback : '\\' ∉ cs := fun hmem => absurd (h _ hmem) (by decide)
  fun_induction isStringBody cs with
  | case1 => rfl
  | case2 => exact absurd List.mem_cons_self hback
  | case3 => exact absurd List.mem_cons_self hback
  | case4 c cs _ _ ih =>
    rw [List.forall_mem_cons] at h
    have hne {d : Char} (hd : isNamePart d = false) : (c != d) = true := by
      rw [bne_iff_ne]
      rintro rfl
      rw [h.1] at hd
      cases hd
    rw [hne (by decide), hne (by decide), ih h.2 fun hmem => hback (List.mem_cons_of_mem c hmem)]
    rfl

/-- A name between quotes. -/
theorem weaves_quoted {name : String} (h : isPlainName name) :
    Weaves [] [] ("\"" ++ name ++ "\"") [name] :=
  weaves_literal (isStringBody_of_isNamePart (isNamePart_of_isPlainName h).2)

theorem weaves_numeral {digits : String} (h : Polyglot.isNumeral digits.toList = true) :
    Weaves [] [] digits [] := by
  obtain ⟨whole, fraction, heq, _, hwhole, hfraction⟩ := isNumeral_iff.mp h
  have hdigit (c : Char) (hc : c.isDigit = true) : isInert c = true :=
    isInert_of_isNamePart (isNamePart_of_isDigit hc)
  refine weaves_inert fun c hc => ?_
  rw [heq, List.mem_append] at hc
  rcases hc with hc | hc
  · exact hdigit c (hwhole c hc)
  · rcases hfraction with rfl | ⟨d, ds, rfl, hds⟩
    · cases hc
    · rcases List.mem_cons.mp hc with rfl | hc
      · decide
      · exact hdigit c (hds c hc)

theorem weaves_toString (n : Nat) : Weaves [] [] (toString n) [] := by
  refine weaves_inert fun c hc => isInert_of_isNamePart (isNamePart_of_isDigit ?_)
  rw [Nat.toString_eq_repr, Nat.toList_repr] at hc
  exact Nat.isDigit_of_mem_toDigits (by decide) (by decide) hc

/-! ## Texts in a row -/

/-- Parts in a row, where each goes on with the brackets that those before it leave open. -/
inductive Chain : (before after : List Char) → List String → List String → Prop
  | nil {due : List Char} : Chain due due [] []
  | cons {before middle after : List Char} {text : String} {texts bodies bodies' : List String} :
      Weaves before middle text bodies → Chain middle after texts bodies' →
      Chain before after (text :: texts) (bodies ++ bodies')

/-- A part without literals in front of others. -/
theorem Chain.plain {before middle after : List Char} {text : String} {texts bodies : List String}
    (h : Weaves before middle text []) (hrest : Chain middle after texts bodies) :
    Chain before after (text :: texts) bodies :=
  .cons h hrest

theorem Chain.append {before middle after : List Char} {texts texts' bodies bodies' : List String}
    (h : Chain before middle texts bodies) (h' : Chain middle after texts' bodies') :
    Chain before after (texts ++ texts') (bodies ++ bodies') := by
  induction h with
  | nil => exact h'
  | cons htext _ ih =>
    rw [List.append_assoc]
    exact .cons htext (ih h')

/-- Parts that close what they open. -/
theorem chain_of_forall₂ {texts : List String} {bodies : List (List String)}
    (h : List.Forall₂ (Weaves [] []) texts bodies) (due : List Char) :
    Chain due due texts bodies.flatten := by
  induction h with
  | nil => exact .nil
  | cons htext _ ih => exact .cons (htext.frame due) ih

/-- Parts without literals that close what they open. -/
theorem chain_of_forall {texts : List String} (h : ∀ text ∈ texts, Weaves [] [] text [])
    (due : List Char) : Chain due due texts [] := by
  induction texts with
  | nil => exact .nil
  | cons text texts ih =>
    rw [List.forall_mem_cons] at h
    exact .cons (h.1.frame due) (ih h.2)

/-- Rows behind each other that close what they open. -/
theorem chain_flatten {rows bodies : List (List String)}
    (h : List.Forall₂ (Chain [] []) rows bodies) : Chain [] [] rows.flatten bodies.flatten := by
  induction h with
  | nil => exact .nil
  | cons hrow _ ih => exact hrow.append ih

theorem Chain.joined {before after : List Char} {texts bodies : List String}
    (h : Chain before after texts bodies) {separator : String}
    (hseparator : isCode [] [] separator = true) :
    Weaves before after (separator.intercalate texts) bodies := by
  induction h with
  | @nil due => exact weaves_empty.frame due
  | @cons before middle after text texts bodies bodies' htext hchain ih =>
    cases texts with
    | nil =>
      cases hchain
      rwa [String.intercalate_singleton, List.append_nil]
    | cons second texts =>
      rw [String.intercalate_cons_cons]
      exact (htext.plain (weaves_code [] hseparator)).append ih

/-- Parts with a separator between each two of them. -/
theorem weaves_intercalate {texts : List String} {bodies : List (List String)}
    (h : List.Forall₂ (Weaves [] []) texts bodies) {separator : String}
    (hseparator : isCode [] [] separator = true) :
    Weaves [] [] (separator.intercalate texts) bodies.flatten :=
  (chain_of_forall₂ h []).joined hseparator

end Text

end Polyglot
