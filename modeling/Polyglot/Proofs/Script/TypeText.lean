import Polyglot.Proofs.Block.Layout
import Polyglot.Proofs.Dialect.Literals
import Polyglot.Proofs.Dialect.Totality
import Polyglot.Proofs.Ty.RoundTrip

/-!
# Types are told apart by their typescript text

The brackets of an array stand behind its element, an arrow reaches to the end of its result, and
only a function that is the element of an array stands in parentheses. That is enough to read a type
back from its text: `readType` does so, from the left and without looking ahead by more than a
character. It cannot know whether a name without arguments was a constant or a variable, and takes
it for a variable (`Ty.blurred`).

Results:
1. `typeText_legible`: the text of a type that was read gives back the type, but for its constants.
2. `typeText_eq_iff_blurred`: two types have the same text exactly if they are the same but for
   constants and variables of one name.
-/

namespace Polyglot

namespace Ty

/-! ## Constants as variables -/

mutual

/-- The type with every constant turned into the variable of its name. -/
def blurred : Ty → Ty
  | .named name [] => .var name
  | .named name (arg :: args) => .named name (blurredAll (arg :: args))
  | .var name => .var name
  | .func parts => .func (blurredAll parts)

def blurredAll : List Ty → List Ty
  | [] => []
  | ty :: rest => blurred ty :: blurredAll rest

end

theorem blurredAll_eq_map (types : List Ty) : blurredAll types = types.map blurred := by
  induction types with
  | nil => rfl
  | cons ty types ih => rw [blurredAll, ih, List.map_cons]

theorem blurred_named {name : String} {args : List Ty} (h : args ≠ []) :
    (Ty.named name args).blurred = .named name (args.map blurred) := by
  cases args with
  | nil => exact absurd rfl h
  | cons arg args => rw [blurred, blurredAll_eq_map]

theorem isFunc_blurred (ty : Ty) : ty.blurred.isFunc = ty.isFunc := by
  cases ty with
  | named name args => cases args <;> rfl
  | var name => rfl
  | func parts => rfl

end Ty

namespace Script

/-- No text tells a constant from a variable. -/
theorem appliedType_blurred (name : String) (args : List Ty) (texts : List String) :
    appliedType name (Ty.blurredAll args) texts = appliedType name args texts := by
  match args, texts with
  | [], _ => rfl
  | [arg], [text] => simp only [Ty.blurredAll, appliedType, Ty.isFunc_blurred]
  | [arg], [] => rfl
  | [arg], _ :: _ :: _ => rfl
  | _ :: _ :: _, _ => rfl

mutual

theorem typeText_blurred : ∀ ty : Ty, typeText ty.blurred = typeText ty
  | .named name [] => rfl
  | .named name (arg :: args) => by
      rw [Ty.blurred, typeText, typeText, typeTexts_blurred (arg :: args)]
      simp only [appliedType_blurred]
  | .var name => rfl
  | .func parts => by
      rw [Ty.blurred, typeText, typeText, typeTexts_blurred parts]

theorem typeTexts_blurred : ∀ types : List Ty, typeTexts (Ty.blurredAll types) = typeTexts types
  | [] => rfl
  | ty :: rest => by
      rw [Ty.blurredAll, typeTexts, typeTexts, typeText_blurred ty, typeTexts_blurred rest]

end

/-! ## Reading a type -/

/-- A type as the element of one array for each `[]` behind it, and what is left. -/
def arrays (ty : Ty) : List Char → Ty × List Char
  | '[' :: ']' :: rest => arrays (.named "List" [ty]) rest
  | rest => (ty, rest)

/-- What stands behind the label of a parameter. -/
def unlabelled (cs : List Char) : List Char :=
  (cs.dropWhile (· != ':')).drop 2

mutual

/-- The type at the start of a text, and what is left. Two opening parentheses belong to a function
that is the element of an array, one to the parameters of a function. -/
def readType : Nat → List Char → Option (Ty × List Char)
  | 0, _ => none
  | fuel + 1, '(' :: '(' :: cs =>
      (readType fuel ('(' :: cs)).map fun element => arrays element.1 (element.2.drop 1)
  | fuel + 1, '(' :: cs =>
      (readTypes unlabelled fuel cs).bind fun params =>
        (readType fuel (params.2.drop 4)).map fun result =>
          (.func (params.1 ++ [result.1]), result.2)
  | fuel + 1, cs =>
      let name := String.ofList (cs.takeWhile isNamePart)
      let rest := cs.dropWhile isNamePart
      if rest.head? = some '<' then
        (readTypes id fuel (rest.drop 1)).map fun args => arrays (.named name args.1) args.2
      else some (arrays (.var name) rest)

/-- Types between commas, each behind what `skip` passes over, and the bracket that closes them. -/
def readTypes (skip : List Char → List Char) : Nat → List Char → Option (List Ty × List Char)
  | 0, _ => none
  | fuel + 1, cs =>
      (readType fuel (skip cs)).bind fun first =>
        match first.2 with
        | ',' :: ' ' :: rest =>
            (readTypes skip fuel rest).map fun others => (first.1 :: others.1, others.2)
        | rest => some ([first.1], rest.drop 1)

end

/-- What can stand behind the text of a type: nothing, a comma, a closing bracket, or else the
brackets of an array unless the type is a function. -/
def Follows (ty : Ty) (rest : List Char) : Prop :=
  ∀ c ∈ rest.head?, c ∈ [',', ')', '>'] ∨ c = '[' ∧ ty.isFunc = false

/-- With enough fuel, the text gives back the type in front of whatever can follow. -/
structure Legible (ty : Ty) (text : String) : Prop where
  opens : ty.isFunc = true → text.toList.head? = some '('
  reads : ∃ least, ∀ fuel ≥ least, ∀ rest, Follows ty rest →
    readType fuel (text.toList ++ rest) = some (arrays ty.blurred rest)

/-! ## Texts that can be read -/

theorem arrays_eq {ty : Ty} {rest : List Char} (h : rest.head? ≠ some '[') :
    arrays ty rest = (ty, rest) := by
  unfold arrays
  split
  · exact absurd rfl h
  · rfl

theorem Follows.head_ne {ty : Ty} {rest : List Char} (h : Follows ty rest)
    (hfunc : ty.isFunc = true) : rest.head? ≠ some '[' := by
  intro hhead
  rcases h '[' hhead with hmem | ⟨_, hnot⟩
  · revert hmem
    decide
  · rw [hfunc] at hnot
    cases hnot

theorem follows_cons {ty : Ty} {c : Char} (h : c ∈ [',', ')', '>']) (rest : List Char) :
    Follows ty (c :: rest) := by
  rintro _ ⟨⟩
  exact .inl h

theorem Follows.other {ty ty' : Ty} {rest : List Char} (h : Follows ty rest)
    (hfunc : ty.isFunc = true ∨ ty'.isFunc = false) : Follows ty' rest := by
  intro c hc
  rcases h c hc with hmem | ⟨rfl, hnot⟩
  · exact .inl hmem
  · refine .inr ⟨rfl, hfunc.resolve_left ?_⟩
    rw [hnot]
    exact Bool.false_ne_true

/-- What follows a type cannot go on with a name. -/
theorem Follows.head_cases {ty : Ty} {rest : List Char} (h : Follows ty rest) :
    ∀ c ∈ rest.head?, isNamePart c = false ∧ c ≠ '<' := by
  intro c hc
  have hcases : c = ',' ∨ c = ')' ∨ c = '>' ∨ c = '[' := by
    rcases h c hc with hmem | ⟨rfl, _⟩
    · simp only [List.mem_cons, List.not_mem_nil, or_false] at hmem
      rcases hmem with rfl | rfl | rfl <;> simp
    · simp
  rcases hcases with rfl | rfl | rfl | rfl <;> decide

/-- A name is read up to the first character that is no part of it. -/
theorem readType_name {name : String} (hname : isPlainName name) {rest : List Char}
    (hrest : ∀ c ∈ rest.head?, isNamePart c = false) (fuel : Nat) :
    readType (fuel + 1) (name.toList ++ rest) =
      if rest.head? = some '<' then
        (readTypes id fuel (rest.drop 1)).map fun args => arrays (.named name args.1) args.2
      else some (arrays (.var name) rest) := by
  obtain ⟨hne, hall⟩ := isNamePart_of_isPlainName hname
  obtain ⟨htake, hdrop⟩ := List.takeWhile_of_head hall hrest
  have hparen : ∀ cs, name.toList ++ rest ≠ '(' :: cs := by
    intro cs heq
    have hhead := congrArg List.head? heq
    rw [List.head?_append_of_ne_nil _ hne] at hhead
    have hpart := hall '(' (List.mem_of_head? hhead)
    revert hpart
    decide
  rw [readType, htake, hdrop, String.ofList_toList]
  · exact fun cs => hparen ('(' :: cs)
  · exact hparen

theorem legible_name {ty : Ty} {name : String} (hname : isPlainName name)
    (hfunc : ty.isFunc = false) (hblurred : ty.blurred = .var name) : Legible ty name := by
  refine ⟨fun htrue => absurd (hfunc.symm.trans htrue) Bool.false_ne_true, 1, ?_⟩
  intro fuel hfuel rest hrest
  obtain ⟨fuel, rfl⟩ := Nat.exists_eq_add_of_le' hfuel
  rw [readType_name hname fun c hc => (hrest.head_cases c hc).1, if_neg, hblurred]
  exact fun hhead => (hrest.head_cases _ hhead).2 rfl

section Lists

variable {skip : List Char → List Char} {fuel : Nat} {cs rest : List Char} {ty : Ty}

theorem readTypes_last {close : Char} (hclose : close ∈ [')', '>'])
    (h : readType fuel (skip cs) = some (ty, close :: rest)) :
    readTypes skip (fuel + 1) cs = some ([ty], rest) := by
  rw [readTypes, h]
  rcases List.mem_pair.mp hclose with rfl | rfl <;> rfl

theorem readTypes_cons {types : List Ty} {others : List Char}
    (h : readType fuel (skip cs) = some (ty, ',' :: ' ' :: others))
    (hothers : readTypes skip fuel others = some (types, rest)) :
    readTypes skip (fuel + 1) cs = some (ty :: types, rest) := by
  rw [readTypes, h]
  show (readTypes skip fuel others).map _ = _
  rw [hothers]
  rfl

end Lists

/-- Pieces between commas are read one by one, if `skip` leads from each piece to its type. -/
theorem readTypes_intercalate {skip : List Char → List Char} {types : List Ty}
    {texts pieces : List String} (h : List.Forall₂ Legible types texts)
    (hpieces : List.Forall₂ (fun piece text => ∀ rest,
      skip (String.toList piece ++ rest) = String.toList text ++ rest) pieces texts)
    (hne : types ≠ []) :
    ∃ least, ∀ fuel ≥ least, ∀ close ∈ [')', '>'], ∀ rest,
      readTypes skip fuel ((", ".intercalate pieces).toList ++ close :: rest) =
        some (types.map Ty.blurred, rest) := by
  induction h generalizing pieces with
  | nil => exact absurd rfl hne
  | @cons ty text types texts hty htypes ih =>
    cases hpieces with
    | @cons piece _ pieces _ hpiece hpieces =>
    obtain ⟨least, hreads⟩ := hty.reads
    -- the bracket or the comma behind the first type is no part of it
    have hfirst : ∀ fuel ≥ least, ∀ c ∈ [',', ')', '>'], ∀ rest,
        readType fuel (skip (piece.toList ++ c :: rest)) = some (ty.blurred, c :: rest) := by
      intro fuel hfuel c hc rest
      rw [hpiece, hreads fuel hfuel _ (follows_cons hc rest), arrays_eq]
      rintro ⟨⟩
      revert hc
      decide
    cases htypes with
    | nil =>
      cases hpieces
      refine ⟨least + 1, fun fuel hfuel close hclose rest => ?_⟩
      obtain ⟨fuel, rfl⟩ := Nat.exists_eq_add_of_le' (Nat.le_of_add_left_le hfuel)
      rw [String.intercalate_singleton]
      exact readTypes_last hclose
        (hfirst fuel (by omega) close (List.mem_cons_of_mem _ hclose) rest)
    | cons hnext htypes =>
      cases hpieces with
      | @cons piece' _ pieces _ hpiece' hpieces =>
      obtain ⟨least', hreads'⟩ := ih (.cons hpiece' hpieces) (List.cons_ne_nil _ _)
      refine ⟨least + least' + 1, fun fuel hfuel close hclose rest => ?_⟩
      obtain ⟨fuel, rfl⟩ := Nat.exists_eq_add_of_le' (Nat.le_of_add_left_le hfuel)
      rw [String.intercalate_cons_cons, String.toList_append, String.toList_append,
        List.append_assoc, List.append_assoc]
      exact readTypes_cons (hfirst fuel (by omega) ',' (by decide) _)
        (hreads' fuel (by omega) close hclose rest)

/-! ## The text of every type can be read -/

theorem legible_applied {name : String} (hname : isPlainName name) {args : List Ty}
    {texts : List String} (h : List.Forall₂ Legible args texts) (hne : args ≠ []) :
    Legible (.named name args) (name ++ "<" ++ ", ".intercalate texts ++ ">") := by
  have hpieces : List.Forall₂ (fun piece text => ∀ rest,
      id (String.toList piece ++ rest) = String.toList text ++ rest) texts texts :=
    List.forall₂_same.mpr fun _ _ _ => rfl
  obtain ⟨least, hreads⟩ := readTypes_intercalate h hpieces hne
  refine ⟨fun hfunc => absurd hfunc Bool.false_ne_true, least + 1, fun fuel hfuel rest _ => ?_⟩
  obtain ⟨fuel, rfl⟩ := Nat.exists_eq_add_of_le' (Nat.le_of_add_left_le hfuel)
  have hargs := hreads fuel (by omega) '>' (by decide) rest
  have htext : (name ++ "<" ++ ", ".intercalate texts ++ ">").toList ++ rest =
      name.toList ++ '<' :: ((", ".intercalate texts).toList ++ '>' :: rest) := by
    simp
  have hopening : ∀ c ∈ ('<' :: ((", ".intercalate texts).toList ++ '>' :: rest)).head?,
      isNamePart c = false := by
    rintro _ ⟨⟩
    decide
  rw [htext, readType_name hname hopening, if_pos (List.head?_cons), List.drop_one, List.tail_cons,
    hargs, Ty.blurred_named hne]
  rfl

/-- The element of an array is its own text, in parentheses if it is a function. -/
theorem legible_array {element : Ty} {text : String} (h : Legible element text) :
    Legible (.named "List" [element]) (parenthesized element.isFunc text ++ "[]") := by
  obtain ⟨least, hreads⟩ := h.reads
  refine ⟨fun hfunc => absurd hfunc Bool.false_ne_true, least + 1, fun fuel hfuel rest _ => ?_⟩
  have harrays : arrays (Ty.named "List" [element]).blurred rest =
      arrays element.blurred ('[' :: ']' :: rest) := rfl
  rw [harrays]
  cases hfunc : element.isFunc with
  | false =>
    have hfollows : Follows element ('[' :: ']' :: rest) := by
      rintro _ ⟨⟩
      exact .inr ⟨rfl, hfunc⟩
    have htext : (parenthesized false text ++ "[]").toList ++ rest =
        text.toList ++ '[' :: ']' :: rest := by
      simp [parenthesized]
    rw [htext]
    exact hreads fuel (by omega) _ hfollows
  | true =>
    obtain ⟨fuel, rfl⟩ := Nat.exists_eq_add_of_le' (Nat.le_of_add_left_le hfuel)
    obtain ⟨cs, hcs⟩ := List.head?_eq_some_iff.mp (h.opens hfunc)
    have htext : (parenthesized true text ++ "[]").toList ++ rest =
        '(' :: '(' :: (cs ++ ')' :: '[' :: ']' :: rest) := by
      simp [parenthesized, hcs]
    have hinner := hreads fuel (by omega) (')' :: '[' :: ']' :: rest) (follows_cons (by decide) _)
    rw [hcs, List.cons_append, arrays_eq (by simp)] at hinner
    rw [htext, readType, hinner]
    rfl

theorem unlabelled_parameter (count : Nat) (text : String) (rest : List Char) :
    unlabelled (("arg" ++ toString count ++ ": " ++ text).toList ++ rest) =
      text.toList ++ rest := by
  have hlabel : ∀ c ∈ ("arg" ++ toString count).toList, (c != ':') = true := by
    intro c hc
    rw [bne_iff_ne]
    rintro rfl
    rw [String.toList_append, List.mem_append, Nat.toString_eq_repr, Nat.toList_repr] at hc
    rcases hc with hc | hc
    · revert hc
      decide
    · have hdigit := Nat.isDigit_of_mem_toDigits (by decide) (by decide) hc
      cases hdigit
  have hcolon : ∀ c ∈ (':' :: ' ' :: (text.toList ++ rest)).head?, (c != ':') = false := by
    rintro _ ⟨⟩
    rfl
  have htext : ("arg" ++ toString count ++ ": " ++ text).toList ++ rest =
      ("arg" ++ toString count).toList ++ ':' :: ' ' :: (text.toList ++ rest) := by
    simp
  rw [unlabelled, htext, (List.takeWhile_of_head hlabel hcolon).2]
  rfl

theorem unlabelled_numbered (count : Nat) (texts : List String) :
    List.Forall₂ (fun piece text => ∀ rest,
      unlabelled (String.toList piece ++ rest) = String.toList text ++ rest)
      (numbered count texts) texts := by
  induction texts generalizing count with
  | nil => exact .nil
  | cons text texts ih => exact .cons (unlabelled_parameter count text) (ih (count + 1))

theorem intercalate_numbered (count : Nat) (text : String) (texts : List String) :
    ∃ cs, (", ".intercalate (numbered count (text :: texts))).toList = 'a' :: cs := by
  rw [numbered]
  cases numbered (count + 1) texts with
  | nil => exact ⟨_, by rw [String.intercalate_singleton]; simp; rfl⟩
  | cons _ _ => exact ⟨_, by rw [String.intercalate_cons_cons]; simp; rfl⟩

/-- The parameters are what stands before the last type, which is the result. -/
theorem legible_func {params : List Ty} {result : Ty} {texts : List String} {text : String}
    (hparams : List.Forall₂ Legible params texts) (hne : params ≠ []) (h : Legible result text) :
    Legible (.func (params ++ [result]))
      ("(" ++ ", ".intercalate (numbered 0 texts) ++ ") => " ++ text) := by
  obtain ⟨least, hreads⟩ := readTypes_intercalate hparams (unlabelled_numbered 0 texts) hne
  obtain ⟨least', hreads'⟩ := h.reads
  refine ⟨fun _ => by simp, least + least' + 1, fun fuel hfuel rest hrest => ?_⟩
  obtain ⟨fuel, rfl⟩ := Nat.exists_eq_add_of_le' (Nat.le_of_add_left_le hfuel)
  have hall := hreads fuel (by omega) ')' (by decide) (" => ".toList ++ (text.toList ++ rest))
  have hresult := hreads' fuel (by omega) rest (hrest.other (.inl rfl))
  have htext : ("(" ++ ", ".intercalate (numbered 0 texts) ++ ") => " ++ text).toList ++ rest =
      '(' :: ((", ".intercalate (numbered 0 texts)).toList ++
        ')' :: (" => ".toList ++ (text.toList ++ rest))) := by
    simp
  obtain ⟨cs, hcs⟩ : ∃ cs, (", ".intercalate (numbered 0 texts)).toList = 'a' :: cs := by
    cases hparams with
    | nil => exact absurd rfl hne
    | cons _ _ => exact intercalate_numbered 0 _ _
  rw [htext, readType, hall]
  · show ((readType fuel (text.toList ++ rest)).map _) = _
    rw [hresult, arrays_eq (hrest.head_ne rfl), arrays_eq (hrest.head_ne rfl), Ty.blurred,
      Ty.blurredAll_eq_map, List.map_append]
    rfl
  · -- the first parameter has a label, so the parentheses are those of the parameters
    intro cs'
    rw [hcs, List.cons_append]
    rintro ⟨⟩

theorem typeTexts_legible {types : List Ty} (h : ∀ ty ∈ types, IfOk (typeText ty) (Legible ty)) :
    IfOk (typeTexts types) (List.Forall₂ Legible types) := by
  induction types with
  | nil => exact ifOk_ok .nil
  | cons ty types ih =>
    rw [List.forall_mem_cons] at h
    rw [typeTexts]
    exact h.1.bind fun text htext => (ih h.2).map fun texts htexts => .cons htext htexts

theorem appliedType_legible {name : String} (hname : isPlainName name) {args : List Ty}
    {texts : List String} (h : List.Forall₂ Legible args texts) (hne : args ≠ []) :
    Legible (.named name args) (appliedType name args texts) := by
  cases h with
  | nil => exact absurd rfl hne
  | @cons arg text args texts harg hargs =>
    have happlied := legible_applied hname (.cons harg hargs) hne
    cases hargs with
    | nil =>
      rw [appliedType]
      split
      · next hlist =>
        subst hlist
        exact legible_array harg
      · exact happlied
    | cons _ _ => exact happlied

theorem functionType_legible {parts : List Ty} {texts : List String}
    (h : List.Forall₂ Legible parts texts) (hlength : 2 ≤ parts.length) :
    IfOk (functionType texts) (Legible (.func parts)) := by
  have hne : parts ≠ [] := List.ne_nil_of_length_pos (Nat.lt_of_lt_of_le Nat.two_pos hlength)
  obtain ⟨params, result, texts, text, rfl, rfl, hparams, hresult⟩ := List.exists_concat_of_forall₂ h hne
  rw [functionType, List.getLast?_concat, List.dropLast_concat]
  refine ifOk_ok (legible_func hparams ?_ hresult)
  rintro rfl
  exact Nat.not_succ_le_self 1 hlength

/-- The text of a type that was read gives the type back, but for its constants. -/
theorem typeText_legible {nested : Bool} {ty : Ty} (h : ty.Proper nested) :
    IfOk (typeText ty) (Legible ty) := by
  induction h with
  | var hname _ _ => exact ifOk_ok (legible_name hname rfl rfl)
  | constant hname _ => exact ifOk_ok (legible_name hname rfl rfl)
  | applied hname hne _ ih =>
    rw [typeText]
    exact (typeTexts_legible ih).map fun texts htexts => appliedType_legible hname htexts hne
  | func hlength _ ih =>
    rw [typeText]
    exact (typeTexts_legible ih).bind fun texts htexts => functionType_legible htexts hlength

/-- Types with the same text are the same but for their constants. -/
theorem blurred_eq_of_legible {a b : Ty} {text : String} (ha : Legible a text)
    (hb : Legible b text) : a.blurred = b.blurred := by
  obtain ⟨least, hreads⟩ := ha.reads
  obtain ⟨least', hreads'⟩ := hb.reads
  have hend : ∀ ty, Follows ty [] := by
    rintro _ _ ⟨⟩
  have hread := hreads (least + least') (Nat.le_add_right _ _) [] (hend a)
  rw [hreads' (least + least') (Nat.le_add_left _ _) [] (hend b)] at hread
  exact (congrArg Prod.fst (Option.some.inj hread)).symm

end Script

namespace Grammar

/-- A type that is read somewhere among the tokens of a text. -/
inductive IsRead (ty : Ty) : Prop
  | mk {text : String} {line : Int} {tokens : Scan} {area : Area} {cursor after : Cursor} :
      scan text line = .ok tokens → cursor.tokens = tokens.tokens →
      typeElement area cursor = .ok ty after → IsRead ty

theorem IsRead.proper {ty : Ty} (h : IsRead ty) : ty.Proper false := by
  obtain ⟨hscan, hcursor, hread⟩ := h
  exact typeElement_proper hscan hcursor hread

/-- Every type that can be read has a typescript text, and two of them have the same text exactly if
they are the same but for constants and variables of one name. -/
theorem typeText_eq_iff_blurred {a b : Ty} (ha : IsRead a) (hb : IsRead b) :
    (∃ text, Script.typeText a = .ok text) ∧
      (Script.typeText a = Script.typeText b ↔ a.blurred = b.blurred) := by
  obtain ⟨text, htext⟩ := Script.typeText_ok a ha.proper.wellFormed
  refine ⟨⟨text, htext⟩, fun h => ?_, fun h => ?_⟩
  · have hlegible : Script.Legible a text := Script.typeText_legible ha.proper text htext
    have hlegible' : Script.Legible b text :=
      Script.typeText_legible hb.proper text (h.symm.trans htext)
    exact Script.blurred_eq_of_legible hlegible hlegible'
  · rw [← Script.typeText_blurred a, h, Script.typeText_blurred]

/-- A list of functions is not taken for a function that returns a list. -/
theorem typeText_list_of_functions :
    IsRead (.named "List" [.func [.var "a", .var "b"]]) ∧
      IsRead (.func [.var "a", .named "List" [.var "b"]]) ∧
      Script.typeText (.named "List" [.func [.var "a", .var "b"]]) ≠
        Script.typeText (.func [.var "a", .named "List" [.var "b"]]) := by
  have hlist : IsRead (.named "List" [.func [.var "a", .var "b"]]) := by
    have hread : ∃ tokens after, scan "List (a -> b)" 1 = .ok tokens ∧
        typeElement .signature (Cursor.ofScan tokens) =
          .ok (.named "List" [.func [.var "a", .var "b"]]) after :=
      ⟨⟨[⟨.ident "List", ⟨1, 1⟩⟩, ⟨.symbol .openParen, ⟨1, 6⟩⟩, ⟨.ident "a", ⟨1, 7⟩⟩,
        ⟨.symbol .arrow, ⟨1, 9⟩⟩, ⟨.ident "b", ⟨1, 12⟩⟩, ⟨.symbol .closeParen, ⟨1, 13⟩⟩],
        ⟨1, 14⟩⟩, _, by cbv, rfl⟩
    obtain ⟨tokens, after, hscan, hread⟩ := hread
    exact .mk hscan rfl hread
  have hfunc : IsRead (.func [.var "a", .named "List" [.var "b"]]) := by
    have hread : ∃ tokens after, scan "(a -> List b)" 1 = .ok tokens ∧
        typeElement .signature (Cursor.ofScan tokens) =
          .ok (.func [.var "a", .named "List" [.var "b"]]) after :=
      ⟨⟨[⟨.symbol .openParen, ⟨1, 1⟩⟩, ⟨.ident "a", ⟨1, 2⟩⟩, ⟨.symbol .arrow, ⟨1, 4⟩⟩,
        ⟨.ident "List", ⟨1, 7⟩⟩, ⟨.ident "b", ⟨1, 12⟩⟩, ⟨.symbol .closeParen, ⟨1, 13⟩⟩],
        ⟨1, 14⟩⟩, _, by cbv, rfl⟩
    obtain ⟨tokens, after, hscan, hread⟩ := hread
    exact .mk hscan rfl hread
  refine ⟨hlist, hfunc, fun h => ?_⟩
  have hblurred := (typeText_eq_iff_blurred hlist hfunc).2.mp h
  revert hblurred
  decide

end Grammar

end Polyglot
