import Polyglot.Proofs.Scope.Parameters
import Polyglot.Proofs.Script.Headings

/-!
# Type variables of typescript declarations are bound

Every declaration of a typescript text that mentions type variables lists them behind its name. For
a union the list was made from the union's own parameters, so it could miss a variable of a field;
the check of the declaration is what rules that out.

Results:
1. `function_opens`: the first line of a function.
2. `read_typeParameters`: the lists of a union that was checked, and of a function.
-/

namespace Polyglot

open Render Text

/-- The first line of a function has the variables of its signature behind the name. -/
theorem function_opens {equation : Equation} (h : (Decl.function equation).wellFormed = true)
    (count : Int) :
    ∃ params result rest, Script.params .typescript equation.params = .ok params ∧
      Script.typeText equation.result = .ok result ∧
      Dialect.typescript.decl (.function equation) count =
        .ok ("function " ++ equation.name ++ Script.angled (Ty.parameters equation.signature) ++
          "(" ++ params ++ "): " ++ result ++ " \x7b\n" ++ rest) count := by
  rw [Decl.wellFormed, Bool.and_eq_true] at h
  obtain ⟨params, _, hparams, _⟩ :=
    params_twins (List.mem_singleton_self (Decl.function equation)) h.2
  obtain ⟨result, hresult⟩ := result_text h.2
  have hheader : Script.header .typescript equation = .ok ("function " ++ equation.name ++
      Script.angled (Ty.parameters equation.signature) ++ "(" ++ params ++ ")" ++
      (": " ++ result) ++ " \x7b") := by
    rw [Script.header, hparams, Script.ascription, hresult]
    rfl
  have hbody : equation.body.wellFormed = true := by
    have hequation := h.2
    simp only [Equation.wellFormed, Bool.and_eq_true] at hequation
    exact hequation.2.2
  have hdecided : (Style.script .typescript).decided = true := rfl
  obtain ⟨text, htext⟩ := render_succeeds hdecided equation.body .ownLines hbody (count + 1)
  refine ⟨params, result, text ++ "\n" ++ indentText count ++ "\x7d", hparams, hresult, ?_⟩
  rw [Dialect.decl_run, Dialect.declPlan_function hheader]
  refine Dialect.run_ok .nil (.cons htext .nil) (congrArg Except.ok ?_)
  rw [show "): " = ")" ++ ": " from rfl, show " \x7b\n" = " \x7b" ++ "\n" from rfl]
  simp only [String.append_assoc]

/-- In a union that was read and that has no issue, the type parameters of a tag are the variables
of its fields, at any depth, in the order in which the union declares them. The same list stands
behind the name of the tag in its record type, in its function, in the result of that function and
in the type of the union. A function that was read has the variables of its signature. -/
theorem Block.read_typeParameters (block : Block) :
    (∀ declared body, block.read = .ok (.union declared) →
      (Scope.ofDecls body).check (.union declared) = .ok none →
        declared.params = declared.boundNames.map Ty.var ∧
        declared.paramNames = .ok declared.boundNames ∧
        (∀ tag ∈ declared.tags, declared.tagParams tag = .ok (declared.boundIn tag) ∧
          (declared.boundIn tag).Sublist declared.boundNames ∧
          ∀ name, name ∈ declared.boundIn tag ↔ Ty.isBuiltin name = false ∧
            ∃ place, Ty.OccursAt (tag.fields.map Binding.type) name place) ∧
        ∃ text own, ∃ params : Tag → String,
          (∀ count, Dialect.typescript.decl (.union declared) count = .ok text count) ∧
          Script.typeText (.named declared.name declared.params) = .ok own ∧
          (∀ tag ∈ declared.tags, Script.factoryParams .typescript tag = .ok (params tag)) ∧
          headings text =
            (declared.tags.flatMap fun tag =>
              ["type " ++ (tag.name ++ Script.angled (declared.boundIn tag)) ++ " = \x7b",
                "function " ++ (tag.name ++ Script.angled (declared.boundIn tag)) ++ "(" ++
                  params tag ++ "): " ++ (tag.name ++ Script.angled (declared.boundIn tag)) ++
                  " \x7b"]) ++
            ["type " ++ own ++ " = " ++ " | ".intercalate (declared.tags.map fun tag =>
              tag.name ++ Script.angled (declared.boundIn tag)) ++ ";"]) ∧
    ∀ equation, block.read = .ok (.function equation) →
      Ty.Listed equation.signature (Ty.parameters equation.signature) ∧
      ∀ count, ∃ params result rest, Script.params .typescript equation.params = .ok params ∧
        Script.typeText equation.result = .ok result ∧
        Dialect.typescript.decl (.function equation) count =
          .ok ("function " ++ equation.name ++ Script.angled (Ty.parameters equation.signature) ++
            "(" ++ params ++ "): " ++ result ++ " \x7b\n" ++ rest) count := by
  constructor
  · intro declared body hread hcheck
    have hproper := (read_proper hread).of_union
    have hresolves : Scope.Resolves body (.union declared) := (Scope.check_eq_none_iff.mp hcheck).2
    obtain ⟨names, hparams, _⟩ := hproper.params
    refine ⟨by rw [Union.boundNames_of_vars hparams, hparams],
      Union.paramNames_eq_ok hproper.named, fun tag htag => ?_, ?_⟩
    · have hbound : ∀ field ∈ tag.fields, Scope.VarsBound declared field.type :=
        fun field hfield => (hresolves tag htag field hfield).2
      exact ⟨Union.tagParams_eq_ok hproper.named tag, List.filter_sublist,
        fun name => Union.mem_boundIn_iff (hproper.tags tag htag) hbound⟩
    · obtain ⟨text, own, params, htext, hown, hfactory, hheadings⟩ := Script.union_headings hproper
      exact ⟨text, own, params, Render.lift_eq_ok htext, hown, hfactory, hheadings⟩
  · intro equation hread
    exact ⟨Ty.parameters_listed _, function_opens (read_proper hread).wellFormed⟩

/-- The parameters of a tag keep the order of the union, and those of a function the order of its
signature. -/
theorem Block.read_typeParameters_order :
    (∃ declared text, Block.read ⟨some .union, 0,
          ["type Pair a b = Pair \x7b first: List b, next: (number -> a) \x7d"]⟩ =
        .ok (.union declared) ∧
      (Scope.ofDecls []).check (.union declared) = .ok none ∧
      (∀ tag ∈ declared.tags, ∀ name, name ∈ ["a", "b"] ↔ Ty.isBuiltin name = false ∧
        ∃ place, Ty.OccursAt (tag.fields.map Binding.type) name place) ∧
      Dialect.typescript.decl (.union declared) 0 = .ok text 0 ∧
      (headings text).getLast? = some "type Pair<a, b> = Pair<a, b>;") ∧
    ∃ equation rest, Block.read ⟨some .function, 0, ["f: List b -> a -> b", "f x y = x"]⟩ =
        .ok (.function equation) ∧
      Dialect.typescript.decl (.function equation) 0 =
        .ok ("function f<b, a>(x: b[], y: a): b \x7b\n" ++ rest) 0 := by
  constructor
  · have hread : Block.read ⟨some .union, 0,
        ["type Pair a b = Pair \x7b first: List b, next: (number -> a) \x7d"]⟩ =
          .ok (.union ⟨"Pair", [.var "a", .var "b"], [⟨"Pair", [⟨"first", .named "List" [.var "b"]⟩,
            ⟨"next", .func [.named "number" [], .var "a"]⟩]⟩]⟩) := by decide +kernel
    obtain ⟨_, _, htags, text, own, params, htext, hown, _, hheadings⟩ :=
      (read_typeParameters _).1 _ [] hread (by decide)
    obtain rfl : "Pair<a, b>" = own := Except.ok.inj (Eq.trans (by decide +kernel) hown)
    refine ⟨_, text, hread, by decide, fun tag htag name => ?_, htext 0, ?_⟩
    · obtain rfl := List.mem_singleton.mp htag
      exact (htags _ htag).2.2 name
    · rw [hheadings, List.getLast?_concat]
      decide +kernel
  · have hread : Block.read ⟨some .function, 0, ["f: List b -> a -> b", "f x y = x"]⟩ =
        .ok (.function ⟨"f", [⟨"x", .named "List" [.var "b"]⟩, ⟨"y", .var "a"⟩], .var "b",
          .value "x"⟩) := by decide +kernel
    obtain ⟨params, result, rest, hparams, hresult, htext⟩ :=
      ((read_typeParameters _).2 _ hread).2 0
    obtain rfl : "x: b[], y: a" = params := Except.ok.inj (Eq.trans (by decide +kernel) hparams)
    obtain rfl : "b" = result := Except.ok.inj hresult
    refine ⟨_, rest, hread, htext.trans ?_⟩
    refine congrArg (EStateM.Result.ok · (0 : Int)) (congrArg (· ++ rest) ?_)
    decide +kernel

end Polyglot
