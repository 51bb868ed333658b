import Polyglot.Proofs.Decl.Normal
import Polyglot.Proofs.Token.Lines
import Polyglot.Scope

/-!
# Writing a type and reading it again

The derw text of a type that was read is read as its normal form. No later stage can tell the two
apart (`Ty.Alike`): they are written alike, have the same parameters, and every declaration gets
the same verdict with either of them in it.

Results:
1. `typeElement_typeText`: the text of a proper type is read as its normal form, to its end.
2. `verdict_normal`: putting all types of a declaration into normal form leaves its verdict as it
   is.
3. `alike_normal`: a type and its normal form are alike.
4. `reread_type_alike`: the two facts together, for whatever the parser of types returns.
-/

namespace Polyglot

/-! ## Reading the text of a type -/

namespace Grammar

open Polyglot.Parser

theorem ends_nil : Ends [] := by
  intro past finish hpast
  rw [startsArgument_eq hpast]

/-- The column matters for arguments only, so a type may start a line. -/
theorem derivesType_first {t t' : Token} {ts : List Token} {ty : Ty}
    (h : DerivesType .element (t :: ts) ty) (hlexeme : t'.lexeme = t.lexeme) :
    DerivesType .element (t' :: ts) ty := by
  cases h with
  | element h =>
    cases h with
    | paren hopening hfirst hrest hclosing =>
      exact .element (.paren (hlexeme.trans hopening) hfirst hrest hclosing)
  | applied hargs =>
    obtain ⟨l, pos⟩ := t'
    subst hlexeme
    exact .applied hargs

theorem typeElement_typeText {ty : Ty} (h : ty.Proper false) (line : Int) (area : Area) :
    ∃ found after, scan (Surface.typeText .derw false ty) line = .ok found ∧
      typeElement area (Cursor.ofScan found) = .ok (ty.normal false) after ∧ after.rest = [] := by
  obtain ⟨⟨tokens, finish⟩, hscan, hlexemes, hplaced⟩ := scan_spelled (typeText_spelled h) line
  cases tokens with
  | nil => exact hplaced.elim
  | cons first rest =>
    -- Only the first token starts a line. Moved to the right, it is as in the middle of a line.
    have hwritten : WrittenAs (ty.lexemes false) (⟨first.lexeme, ⟨line, 2⟩⟩ :: rest) := by
      refine ⟨hlexemes, List.forall_mem_cons.mpr ⟨Nat.succ_ne_self 1, fun t ht => ?_⟩⟩
      exact Nat.ne_of_gt (hplaced.2 t ht)
    have hderives : DerivesType .element (first :: rest) (ty.normal false) :=
      derivesType_first (derivesType_lexemes h _ hwritten) rfl
    have haccepts : (typeElement area).Accepts [] (first :: rest) (ty.normal false) [] :=
      accepts_typeElement hderives ends_nil
    have hread := haccepts finish
    rw [List.append_nil] at hread
    exact ⟨_, _, hscan, hread, rfl⟩

/-- What is read at any place among the tokens of a text is proper. -/
theorem typeElement_proper {text : String} {line : Int} {tokens : Scan}
    (hscan : scan text line = .ok tokens) {area : Area} {cursor after : Cursor}
    (hcursor : cursor.tokens = tokens.tokens) {ty : Ty}
    (h : typeElement area cursor = .ok ty after) : ty.Proper false := by
  obtain ⟨ts, hspans, hderives⟩ := (reads_typeElement cursor).of_ok h
  have hpart : ts <:+: tokens.tokens := by
    rw [← hcursor, Cursor.tokens, hspans.rest, ← List.append_assoc]
    exact List.infix_append _ ts _
  exact derivesType_proper hderives ((valid_of_scan hscan).of_part (hpart.map Token.lexeme))

end Grammar

/-! ## Verdicts on normal forms -/

namespace Ty

mutual

theorem spelled_normal (nested : Bool) : ∀ ty : Ty, (ty.normal nested).spelled = ty.spelled
  | .named name [] => by
      rw [normal]
      split <;> rfl
  | .named name (arg :: args) => by
      rw [normal, normalAll, spelled, ← normalAll, spelledAll_normal true (arg :: args), spelled]
  | .var name => rfl
  | .func parts => by
      rw [normal, spelled, spelled, spelledAll_normal false parts]

theorem spelledAll_normal (nested : Bool) : ∀ types : List Ty,
    spelledAll (normalAll nested types) = spelledAll types
  | [] => rfl
  | ty :: rest => by
      rw [normalAll, spelledAll, spelledAll, spelled_normal nested ty,
        spelledAll_normal nested rest]

end

/-- Normal forms have more builtins among their variables, and no other variables. -/
theorem find?_vars_normal {p : String → Bool} (hp : ∀ name, p name = true → isBuiltin name = false)
    (nested : Bool) (types : List Ty) :
    (varsAll (normalAll nested types)).find? p = (varsAll types).find? p := by
  have hfilter : ∀ names : List String,
      (names.filter fun name => !isBuiltin name).find? p = names.find? p := by
    intro names
    rw [List.find?_filter]
    refine congrArg (List.find? · names) (funext fun name => ?_)
    cases hname : p name with
    | true => simp [hp name hname]
    | false => simp
  rw [← hfilter, varsAll_normal, hfilter]

end Ty

theorem Issue.message_unknownType_normal (name : String) (nested : Bool) (args : List Ty) :
    (Issue.unknownType name (Ty.normalAll nested args)).message =
      (Issue.unknownType name args).message := by
  have hmessage : ∀ arg args, (Issue.unknownType name (arg :: args)).message =
      "Type " ++ name ++ " (" ++ ", ".intercalate (Ty.spelledAll (arg :: args)) ++
        ") did not exist in the namespace" := fun _ _ => rfl
  cases args with
  | nil => rfl
  | cons arg args =>
    rw [Ty.normalAll, hmessage, hmessage, ← Ty.normalAll, Ty.spelledAll_normal]

namespace Scope

open Ty

theorem mem_builtins_of_isBuiltin {name : String} (h : isBuiltin name = true) :
    name ∈ builtins := by
  simp only [isBuiltin, List.mem_cons, List.not_mem_nil, or_false, decide_eq_true_eq] at h
  rcases h with rfl | rfl | rfl | rfl | rfl <;> decide

/-- What is said about the named types that are not in scope. -/
def missing (scope : Scope) (parts : List (String × List Ty)) : List String :=
  (parts.filter fun part => !scope.contains part.1).map fun part =>
    (Issue.unknownType part.1 part.2).message

theorem missing_append (scope : Scope) (parts parts' : List (String × List Ty)) :
    scope.missing (parts ++ parts') = scope.missing parts ++ scope.missing parts' := by
  rw [missing, List.filter_append, List.map_append, missing, missing]

theorem missing_of_contains {scope : Scope} {name : String} (h : scope.contains name = true)
    (args : List Ty) : scope.missing [(name, args)] = [] := by
  simp [missing, h]

theorem missing_part_normal (scope : Scope) (name : String) (nested : Bool) (args : List Ty) :
    scope.missing [(name, normalAll nested args)] = scope.missing [(name, args)] := by
  cases hname : scope.contains name <;>
    simp [missing, hname, Issue.message_unknownType_normal]

theorem checkNamed_message (scope : Scope) (types : List Ty) :
    (scope.checkNamed types).map Issue.message = (scope.missing (namedPartsAll types)).head? := by
  rw [checkNamed, missing, List.head?_map, List.head?_filter, Option.map_map]
  rfl

mutual

theorem missing_normal {scope : Scope}
    (hbuiltin : ∀ name, isBuiltin name = true → scope.contains name = true) (nested : Bool) :
    ∀ ty : Ty, scope.missing (ty.normal nested).namedParts = scope.missing ty.namedParts
  | .named name [] => by
      rw [normal]
      split
      · next h =>
        rw [Bool.and_eq_true] at h
        exact (missing_of_contains (hbuiltin name h.2) []).symm
      · rfl
  | .named name (arg :: args) => by
      rw [normal, namedParts, namedParts, ← List.singleton_append, missing_append,
        missing_part_normal, missing_all_normal hbuiltin true (arg :: args), ← missing_append,
        List.singleton_append]
  | .var name => rfl
  | .func parts => by
      rw [normal, namedParts, namedParts, missing_all_normal hbuiltin false parts]

theorem missing_all_normal {scope : Scope}
    (hbuiltin : ∀ name, isBuiltin name = true → scope.contains name = true) (nested : Bool) :
    ∀ types : List Ty,
      scope.missing (namedPartsAll (normalAll nested types)) = scope.missing (namedPartsAll types)
  | [] => rfl
  | ty :: rest => by
      rw [normalAll, namedPartsAll, namedPartsAll, missing_append, missing_append,
        missing_normal hbuiltin nested ty, missing_all_normal hbuiltin nested rest]

end

theorem checkVars_normal (union : String) (bound : List String) (tag : Tag) :
    checkVars union bound tag.normal = checkVars union bound tag := by
  have hfind := find?_vars_normal (p := fun name =>
    !(builtins.contains name || bound.contains name)) (fun name h => ?_) false
    (tag.fields.map Binding.type)
  · rw [checkVars, Tag.normal, types_normal, ← normalAll_eq_map]
    exact congrArg (Option.map _) hfind
  · cases hname : isBuiltin name with
    | false => rfl
    | true => simp [mem_builtins_of_isBuiltin hname] at h

section Builtins

variable {scope : Scope} (hbuiltin : ∀ name, isBuiltin name = true → scope.contains name = true)
include hbuiltin

theorem checkNamed_normal (types : List Ty) :
    (scope.checkNamed (types.map (normal false))).map Issue.message =
      (scope.checkNamed types).map Issue.message := by
  rw [← normalAll_eq_map, checkNamed_message, checkNamed_message, missing_all_normal hbuiltin]

theorem checkTag_normal (union : String) (bound : List String) (tag : Tag) :
    (scope.checkTag union bound tag.normal).map Issue.message =
      (scope.checkTag union bound tag).map Issue.message := by
  rw [checkTag, checkTag, checkVars_normal, Option.map_or, Option.map_or, Tag.normal, types_normal,
    checkNamed_normal hbuiltin]

theorem check_normal (decl : Decl) :
    (scope.check decl.normal).map (Option.map Issue.message) =
      (scope.check decl).map (Option.map Issue.message) := by
  cases decl with
  | union declared =>
    have hnames : declared.normal.paramNames = declared.paramNames := rfl
    rw [Decl.normal, check, check, hnames]
    cases declared.paramNames with
    | error missing => rfl
    | ok bound =>
      refine congrArg Except.ok ?_
      rw [List.map_findSome?, List.map_findSome?, Union.normal, List.findSome?_map]
      refine congrArg (List.findSome? · declared.tags) (funext fun tag => ?_)
      exact checkTag_normal hbuiltin declared.name bound tag
  | function equation | const equation =>
    refine congrArg Except.ok ?_
    rw [Equation.signature_normal, checkNamed_normal hbuiltin]
  | unknown node => rfl

end Builtins

/-- What is said about a declaration in a module, if anything, or which part it lacks. -/
def verdict (body : List Decl) (decl : Decl) : Except MissingPart (Option String) :=
  ((ofDecls body).check decl).map (Option.map Issue.message)

theorem contains_ofDecls_of_isBuiltin (body : List Decl) (name : String)
    (h : isBuiltin name = true) : (ofDecls body).contains name = true :=
  decide_eq_true (List.mem_append_left _ (mem_builtins_of_isBuiltin h))

theorem declaredBy_normal (decl : Decl) : declaredBy decl.normal = declaredBy decl := by
  cases decl with
  | union declared =>
    rw [Decl.normal, declaredBy, declaredBy, Union.normal, List.map_map]
    rfl
  | _ => rfl

/-- A declaration and its normal form get the same verdict, among declarations in normal form or
not. -/
theorem verdict_normal (body : List Decl) (decl : Decl) :
    verdict (body.map Decl.normal) decl.normal = verdict body decl := by
  have hscope : ofDecls (body.map Decl.normal) = ofDecls body := by
    rw [ofDecls, ofDecls, List.flatMap_map]
    simp only [declaredBy_normal]
  rw [verdict, verdict, hscope, check_normal (contains_ofDecls_of_isBuiltin body)]

end Scope

/-! ## Types in declarations -/

namespace Ty

mutual

/-- A type with `ty` for its variable `hole`. -/
def fill (hole : String) (ty : Ty) : Ty → Ty
  | .named name args => .named name (fillAll hole ty args)
  | .var name => if name = hole then ty else .var name
  | .func parts => .func (fillAll hole ty parts)

def fillAll (hole : String) (ty : Ty) : List Ty → List Ty
  | [] => []
  | part :: rest => fill hole ty part :: fillAll hole ty rest

end

mutual

theorem normal_normal (inner nested : Bool) : ∀ ty : Ty,
    (ty.normal inner).normal nested = ty.normal (inner || nested)
  | .named name [] => by
      cases inner with
      | false => rfl
      | true =>
        rw [normal]
        split
        · next h => rw [normal, normal, Bool.true_or, if_pos h]
        · next h =>
          have hbuiltin : isBuiltin name = false := by simpa using h
          simp [normal, hbuiltin]
  | .named name (arg :: args) => by
      rw [normal, normalAll, normal, ← normalAll, normalAll_normal true true (arg :: args), normal]
      rfl
  | .var name => rfl
  | .func parts => by
      rw [normal, normal, normalAll_normal false false parts, normal]
      rfl

theorem normalAll_normal (inner nested : Bool) : ∀ types : List Ty,
    normalAll nested (normalAll inner types) = normalAll (inner || nested) types
  | [] => rfl
  | ty :: rest => by
      rw [normalAll, normalAll, normalAll, normal_normal inner nested ty,
        normalAll_normal inner nested rest]

end

mutual

theorem normal_fill (hole : String) (ty : Ty) (nested : Bool) : ∀ part : Ty,
    (fill hole (ty.normal false) part).normal nested = (fill hole ty part).normal nested
  | .named name [] => rfl
  | .named name (arg :: args) => by
      rw [fill, fill, fillAll, fillAll, normal, normal, ← fillAll, ← fillAll,
        normalAll_fill hole ty true (arg :: args)]
  | .var name => by
      rw [fill, fill]
      split
      · exact normal_normal false nested ty
      · rfl
  | .func parts => by
      rw [fill, fill, normal, normal, normalAll_fill hole ty false parts]

theorem normalAll_fill (hole : String) (ty : Ty) (nested : Bool) : ∀ parts : List Ty,
    normalAll nested (fillAll hole (ty.normal false) parts) =
      normalAll nested (fillAll hole ty parts)
  | [] => rfl
  | part :: rest => by
      rw [fillAll, fillAll, normalAll, normalAll, normal_fill hole ty nested part,
        normalAll_fill hole ty nested rest]

end

end Ty

def Binding.fill (hole : String) (ty : Ty) (binding : Binding) : Binding :=
  { binding with type := Ty.fill hole ty binding.type }

def Tag.fill (hole : String) (ty : Ty) (tag : Tag) : Tag :=
  { tag with fields := tag.fields.map (Binding.fill hole ty) }

def Equation.fill (hole : String) (ty : Ty) (equation : Equation) : Equation :=
  { equation with
    params := equation.params.map (Binding.fill hole ty)
    result := Ty.fill hole ty equation.result }

/-- A declaration with `ty` for the variable `hole` in the types of its fields, or of its parameters
and its result. -/
def Decl.fill (hole : String) (ty : Ty) : Decl → Decl
  | .union declared => .union { declared with tags := declared.tags.map (Tag.fill hole ty) }
  | .function equation => .function (equation.fill hole ty)
  | .const equation => .const (equation.fill hole ty)
  | .unknown node => .unknown node

theorem bindings_normal_fill (hole : String) (ty : Ty) (bindings : List Binding) :
    (bindings.map (Binding.fill hole (ty.normal false))).map Binding.normal =
      (bindings.map (Binding.fill hole ty)).map Binding.normal := by
  rw [List.map_map, List.map_map]
  refine List.map_congr_left fun binding _ => ?_
  exact congrArg (Binding.mk binding.name) (Ty.normal_fill hole ty false binding.type)

theorem Equation.normal_fill (hole : String) (ty : Ty) (equation : Equation) :
    (equation.fill hole (ty.normal false)).normal = (equation.fill hole ty).normal := by
  simp only [fill, normal, bindings_normal_fill, Ty.normal_fill]

/-- Which of the two stands in a declaration is forgotten in its normal form. -/
theorem Decl.normal_fill (hole : String) (ty : Ty) (decl : Decl) :
    (decl.fill hole (ty.normal false)).normal = (decl.fill hole ty).normal := by
  cases decl with
  | union declared =>
    have htags : (declared.tags.map (Tag.fill hole (ty.normal false))).map Tag.normal =
        (declared.tags.map (Tag.fill hole ty)).map Tag.normal := by
      rw [List.map_map, List.map_map]
      refine List.map_congr_left fun tag _ => ?_
      exact congrArg (Tag.mk tag.name) (bindings_normal_fill hole ty tag.fields)
    simp only [fill, normal, Union.normal, htags]
  | function equation => rw [fill, fill, normal, normal, Equation.normal_fill]
  | const equation => rw [fill, fill, normal, normal, Equation.normal_fill]
  | unknown node => rfl

/-! ## Types that are alike -/

namespace Ty

/-- Types that no stage behind the parser tells apart. -/
structure Alike (a b : Ty) : Prop where
  surface (surface : Surface) (nested : Bool) :
    surface.typeText nested a = surface.typeText nested b
  script : Script.typeText a = Script.typeText b
  parameters (before after : List Ty) :
    Ty.parameters (before ++ a :: after) = Ty.parameters (before ++ b :: after)
  spelled : a.spelled = b.spelled
  /-- The verdict on a declaration of a module, wherever the types stand in them. -/
  verdict (hole : String) (body : List Decl) (decl : Decl) :
    Scope.verdict (body.map (Decl.fill hole a)) (decl.fill hole a) =
      Scope.verdict (body.map (Decl.fill hole b)) (decl.fill hole b)

theorem alike_normal (ty : Ty) : Alike ty (ty.normal false) where
  surface surface nested := (Surface.typeText_normal surface nested false ty).symm
  script := (Script.typeText_normal false ty).symm
  parameters before after := by
    rw [Ty.parameters, Ty.parameters, varsAll_eq_flatMap, varsAll_eq_flatMap, List.flatMap_append,
      List.flatMap_append, List.flatMap_cons, List.flatMap_cons, List.filter_append,
      List.filter_append, List.filter_append, List.filter_append, vars_normal]
  spelled := (spelled_normal false ty).symm
  verdict hole body decl := by
    rw [← Scope.verdict_normal,
      ← Scope.verdict_normal (body.map (Decl.fill hole (ty.normal false))), Decl.normal_fill,
      List.map_map, List.map_map]
    refine congrArg (Scope.verdict · _) (List.map_congr_left fun other _ => ?_)
    exact (Decl.normal_fill hole ty other).symm

end Ty

namespace Grammar

/-- A type that was read, at any place among the tokens of a text, has a derw text that is read as
its normal form and to its end. The type and its normal form are alike. -/
theorem reread_type_alike {text : String} {line : Int} {tokens : Scan}
    (hscan : scan text line = .ok tokens) {area : Area} {cursor after : Cursor}
    (hcursor : cursor.tokens = tokens.tokens) {ty : Ty}
    (h : typeElement area cursor = .ok ty after) :
    (∀ line area, ∃ found after, scan (Surface.typeText .derw false ty) line = .ok found ∧
      typeElement area (Cursor.ofScan found) = .ok (ty.normal false) after ∧ after.rest = []) ∧
      ty.Alike (ty.normal false) :=
  ⟨typeElement_typeText (typeElement_proper hscan hcursor h), ty.alike_normal⟩

/-- A builtin loses its parentheses and becomes a variable. -/
theorem reread_list_of_number :
    (∃ tokens cursor after, scan "x: List (number)" 1 = .ok tokens ∧
      cursor.tokens = tokens.tokens ∧
      typeElement .signature cursor = .ok (.named "List" [.named "number" []]) after) ∧
    (∃ found after, scan "List number" 1 = .ok found ∧
      typeElement .signature (Cursor.ofScan found) = .ok (.named "List" [.var "number"]) after ∧
      after.rest = []) ∧
    Ty.Alike (.named "List" [.named "number" []]) (.named "List" [.var "number"]) := by
  have hscan : scan "x: List (number)" 1 = .ok
      ⟨[⟨.ident "x", ⟨1, 1⟩⟩, ⟨.symbol .colon, ⟨1, 2⟩⟩, ⟨.ident "List", ⟨1, 4⟩⟩,
        ⟨.symbol .openParen, ⟨1, 9⟩⟩, ⟨.ident "number", ⟨1, 10⟩⟩, ⟨.symbol .closeParen, ⟨1, 16⟩⟩],
        ⟨1, 17⟩⟩ := by
    cbv
  have hread : ∃ after, typeElement .signature
      ⟨[⟨.symbol .colon, ⟨1, 2⟩⟩, ⟨.ident "x", ⟨1, 1⟩⟩],
        [⟨.ident "List", ⟨1, 4⟩⟩, ⟨.symbol .openParen, ⟨1, 9⟩⟩, ⟨.ident "number", ⟨1, 10⟩⟩,
          ⟨.symbol .closeParen, ⟨1, 16⟩⟩], ⟨1, 17⟩⟩ =
        .ok (.named "List" [.named "number" []]) after := ⟨_, rfl⟩
  obtain ⟨after, hread⟩ := hread
  obtain ⟨hreread, halike⟩ := reread_type_alike hscan rfl hread
  exact ⟨⟨_, _, after, hscan, rfl, hread⟩, hreread 1 .signature, halike⟩

end Grammar

end Polyglot
