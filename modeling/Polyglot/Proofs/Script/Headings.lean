import Polyglot.Proofs.Block.Layout
import Polyglot.Proofs.Program.Literals
import Polyglot.Proofs.Script.Erasure
import Polyglot.Proofs.Text.Margin
import Polyglot.Proofs.Token.Stream

/-!
# The lines of a union at the margin

In typescript a union is a row of paragraphs with a blank line between each two. A paragraph starts
with a word at the left margin; its other lines are indented or are the bracket that closes it. So
the lines of the whole text that start with a name (`Text.headings`) are the first lines of the
paragraphs, whatever the declaration is made of.

Results:
1. `union_headings`: a record type and a function for each tag, and then the type of the union.
2. `ofText_aliases`: which types are declared, under which names.
-/

namespace Polyglot

namespace Text

theorem isLine_toString (n : Nat) : IsLine (toString n) := by
  refine not_mem_of_isNamePart fun c hc => isNamePart_of_isDigit ?_
  rw [Nat.toString_eq_repr, Nat.toList_repr] at hc
  exact Nat.isDigit_of_mem_toDigits (by decide) (by decide) hc

/-! ## Lines at the margin -/

def startsWithName (line : String) : Bool :=
  line.toList.head?.any isNamePart

/-- The lines of a text that start with a name. -/
def headings (text : String) : List String :=
  (lines text).filter startsWithName

/-- A line that starts with a name, or with something else. -/
structure Opens (name : Bool) (line : String) : Prop where
  isLine : IsLine line
  first : line.toList.head?.map isNamePart = some name

theorem Opens.startsWithName {name : Bool} {line : String} (h : Opens name line) :
    startsWithName line = name := by
  obtain ⟨c, hc, hname⟩ := Option.map_eq_some_iff.mp h.first
  rw [Text.startsWithName, hc]
  exact hname

theorem Opens.append {name : Bool} {line rest : String} (h : Opens name line) (h' : IsLine rest) :
    Opens name (line ++ rest) := by
  refine ⟨h.isLine.append h', ?_⟩
  obtain ⟨c, hc, hname⟩ := Option.map_eq_some_iff.mp h.first
  rw [String.toList_append, List.head?_append, hc]
  exact congrArg some hname

theorem headings_newline (above below : String) :
    headings (above ++ "\n" ++ below) = headings above ++ headings below := by
  rw [headings, lines_newline, List.filter_append]
  rfl

/-- A heading with other lines below it. -/
theorem headings_paragraph {first : String} {rest : List String} (hfirst : Opens true first)
    (hrest : ∀ line ∈ rest, Opens false line) :
    headings ("\n".intercalate (first :: rest)) = [first] := by
  have hlines : ∀ line ∈ first :: rest, '\n' ∉ line.toList :=
    List.forall_mem_cons.mpr ⟨hfirst.isLine, fun line hmem => (hrest line hmem).isLine⟩
  have hcut : lines ("\n".intercalate (first :: rest)) = first :: rest :=
    lines_unlines (List.cons_ne_nil _ _) hlines
  have hinner : rest.filter startsWithName = [] :=
    List.filter_eq_nil_iff.mpr fun line hmem => by simp [(hrest line hmem).startsWithName]
  rw [headings, hcut, List.filter_cons_of_pos hfirst.startsWithName, hinner]

/-- A blank line has no heading. -/
theorem headings_blank (text : String) : headings (text ++ "\n") = headings text := by
  have hcut := headings_newline text ""
  rwa [String.append_empty, show headings "" = [] from rfl, List.append_nil] at hcut

theorem headings_paragraphs (texts : List String) :
    headings ("\n\n".intercalate texts) = texts.flatMap headings := by
  induction texts with
  | nil => rfl
  | cons text texts ih =>
    cases texts with
    | nil => rw [String.intercalate_singleton, List.flatMap_singleton]
    | cons _ _ =>
      rw [String.intercalate_cons_cons, show "\n\n" = "\n" ++ "\n" from rfl,
        ← String.append_assoc, headings_newline, headings_blank]
      exact congrArg (headings text ++ ·) ih

end Text

open Text

namespace Script

/-! ## Types on one line -/

theorem numbered_isLine {texts : List String} (h : ∀ text ∈ texts, IsLine text) (count : Nat) :
    ∀ text ∈ numbered count texts, IsLine text := by
  induction texts generalizing count with
  | nil => exact fun text htext => absurd htext List.not_mem_nil
  | cons text texts ih =>
    rw [List.forall_mem_cons] at h
    refine List.forall_mem_cons.mpr ⟨?_, ih h.2 (count + 1)⟩
    have hlabel : IsLine ("arg" ++ toString count ++ ": ") :=
      (IsLine.append (by decide) (isLine_toString count)).append (by decide)
    exact hlabel.append h.1

theorem functionType_isLine {texts : List String} (h : ∀ text ∈ texts, IsLine text) :
    IfOk (functionType texts) IsLine := by
  unfold functionType
  split
  · exact ifOk_error _
  · next result hresult =>
    have hparams := numbered_isLine (fun text htext => h text (List.mem_of_mem_dropLast htext)) 0
    have hlist : IsLine ("(" ++ ", ".intercalate (numbered 0 texts.dropLast) ++ ") => ") :=
      (IsLine.append (by decide) (isLine_intercalate (by decide) hparams)).append (by decide)
    exact ifOk_ok (hlist.append (h result (List.mem_of_getLast? hresult)))

theorem appliedType_isLine {name : String} (hname : isPlainName name) (args : List Ty)
    {texts : List String} (h : ∀ text ∈ texts, IsLine text) :
    IsLine (appliedType name args texts) := by
  have hangled {inside : String} (hinside : IsLine inside) :
      IsLine (name ++ "<" ++ inside ++ ">") :=
    (((isLine_name hname).append (by decide)).append hinside).append (by decide)
  unfold appliedType
  split
  · exact isLine_name hname
  · next arg text =>
    have htext := h text List.mem_cons_self
    split
    · refine IsLine.append ?_ (by decide)
      unfold parenthesized
      split
      · exact (IsLine.append (by decide) htext).append (by decide)
      · exact htext
    · exact hangled htext
  · exact hangled (isLine_intercalate (by decide) h)

theorem named_isLine {name : String} (hname : isPlainName name) {args : List Ty}
    (h : ∀ arg ∈ args, IfOk (typeText arg) IsLine) : IfOk (typeText (.named name args)) IsLine := by
  rw [typeText]
  exact (typeTexts_all h).map fun texts htexts => appliedType_isLine hname args htexts

theorem typeText_isLine {nested : Bool} {ty : Ty} (h : ty.Proper nested) :
    IfOk (typeText ty) IsLine := by
  induction h with
  | var hname _ _ => exact ifOk_ok (isLine_name hname)
  | constant hname _ => exact ifOk_ok (isLine_name hname)
  | applied hname _ _ ih => exact named_isLine hname ih
  | func _ _ ih =>
    rw [typeText]
    exact (typeTexts_all ih).bind fun texts htexts => functionType_isLine htexts

theorem angled_isLine {names : List String} (h : ∀ name ∈ names, isPlainName name) :
    IsLine (angled names) := by
  unfold angled
  split
  · decide
  · have hlist : IsLine (", ".intercalate names) :=
      isLine_intercalate (by decide) fun name hname => isLine_name (h name hname)
    exact (IsLine.append (by decide) hlist).append (by decide)

/-! ## First lines -/

section Tags

variable {declared : Union} {tag : Tag}

theorem tagTypeText_isLine (hunion : declared.Proper) (h : tag.Proper) :
    IsLine (tagTypeText declared tag) :=
  (isLine_name h.name).append (angled_isLine (hunion.boundIn_plain tag))

theorem exists_fieldTypes (h : tag.Proper) :
    ∃ texts, fieldTypes tag = .ok texts ∧ ∀ text ∈ texts, IsLine text := by
  have hlines : IfOk (fieldTypes tag) fun texts => ∀ text ∈ texts, IsLine text := by
    refine ifOk_mapM_all fun field hfield => ?_
    refine (typeText_isLine (h.fields field hfield).type).map fun text htext => ?_
    exact ((isLine_name (h.fields field hfield).name).append (by decide)).append htext
  have hwell : tag.wellFormed = true :=
    List.all_eq_true.mpr fun field hfield => (h.fields field hfield).type.wellFormed
  obtain ⟨texts, htexts⟩ := fieldTypes_ok hwell
  exact ⟨texts, htexts, hlines texts htexts⟩

theorem opens_indentStep : Opens false indentStep :=
  ⟨by decide, rfl⟩

theorem tagAlias_headings (hunion : declared.Proper) (h : tag.Proper) :
    ∃ text, tagAlias .typescript declared tag = .ok (some text) ∧
      headings text = ["type " ++ tagTypeText declared tag ++ " = \x7b"] := by
  obtain ⟨fields, hfields, hlines⟩ := exists_fieldTypes h
  rw [tagAlias, tagType_eq_ok hunion.named, hfields]
  have hhead : Opens true "type " := ⟨by decide, rfl⟩
  have hkind : Opens false (indentStep ++ "kind: \"" ++ tag.name ++ "\";") :=
    ((opens_indentStep.append (by decide)).append (isLine_name h.name)).append (by decide)
  have hrecord : ∀ line ∈ fields.map (fun text => indentStep ++ text ++ ";"), Opens false line :=
    List.forall_mem_map.mpr fun text htext =>
      (opens_indentStep.append (hlines text htext)).append (by decide)
  have hclosing : Opens false "\x7d;" := ⟨by decide, rfl⟩
  refine ⟨_, rfl, headings_paragraph ?_ (List.forall_mem_cons.mpr ⟨hkind, ?_⟩)⟩
  · exact (hhead.append (tagTypeText_isLine hunion h)).append (by decide)
  · exact List.forall_mem_append.mpr ⟨hrecord, List.forall_mem_singleton.mpr hclosing⟩

/-- The first lines of the paragraphs of a tag: its record type, and the function that makes a value
of it. -/
def tagHeadings (declared : Union) (tag : Tag) (params : String) : List String :=
  ["type " ++ tagTypeText declared tag ++ " = \x7b",
    "function " ++ tagTypeText declared tag ++ "(" ++ params ++ "): " ++ tagTypeText declared tag ++
      " \x7b"]

theorem factoryHead_opens (hunion : declared.Proper) (h : tag.Proper) {params : String}
    (hparams : IsLine params) :
    Opens true ("function " ++ tagTypeText declared tag ++ "(" ++ params ++ "): " ++
      tagTypeText declared tag ++ " \x7b") := by
  have hhead : Opens true "function " := ⟨by decide, rfl⟩
  have hopen : IsLine "(" := by decide
  have hclose : IsLine "): " := by decide
  have htype := tagTypeText_isLine hunion h
  have hfront := ((hhead.append htype).append hopen).append hparams
  exact ((hfront.append hclose).append htype).append (by decide)

theorem factoryRest_opens (h : tag.Proper) : ∀ line ∈ factoryRest tag, Opens false line := by
  have htwice : Opens false (indentStep ++ indentStep) := ⟨by decide, rfl⟩
  have hkind : Opens false (indentStep ++ indentStep ++ "kind: \"" ++ tag.name ++ "\",") :=
    ((htwice.append (by decide)).append (isLine_name h.name)).append (by decide)
  simp only [factoryRest, List.forall_mem_cons]
  exact ⟨⟨by decide, rfl⟩, hkind, ⟨by decide, rfl⟩, ⟨by decide, rfl⟩, ⟨by decide, rfl⟩,
    List.forall_mem_nil _⟩

theorem factory_headings (hunion : declared.Proper) (h : tag.Proper) :
    ∃ params text, factoryParams .typescript tag = .ok params ∧
      factory .typescript declared tag = .ok text ∧
      headings text = ["function " ++ tagTypeText declared tag ++ "(" ++ params ++ "): " ++
        tagTypeText declared tag ++ " \x7b"] := by
  obtain ⟨fields, hfields, hlines⟩ := exists_fieldTypes h
  obtain ⟨params, hparams, hline⟩ :
      ∃ params, factoryParams .typescript tag = .ok params ∧ IsLine params := by
    rw [factoryParams, hfields]
    refine ⟨_, rfl, ?_⟩
    split
    · decide
    · exact (IsLine.append (by decide) (isLine_intercalate (by decide) hlines)).append (by decide)
  have hreturn : factoryReturn .typescript declared tag = .ok (": " ++ tagTypeText declared tag) := by
    rw [factoryReturn, tagType_eq_ok hunion.named]
    rfl
  refine ⟨params, _, hparams, factory_eq hunion.named rfl hparams hreturn, ?_⟩
  have hhead : "function " ++ tag.name ++ angled (declared.boundIn tag) ++ "(" ++ params ++ ")" ++
      (": " ++ tagTypeText declared tag) ++ " \x7b" = "function " ++ tagTypeText declared tag ++ "(" ++
        params ++ "): " ++ tagTypeText declared tag ++ " \x7b" := by
    rw [show "): " = ")" ++ ": " from rfl, tagTypeText]
    simp only [String.append_assoc]
  have hopens := factoryHead_opens hunion h hline
  rw [← hhead] at hopens ⊢
  exact headings_paragraph hopens (factoryRest_opens h)

/-- Both paragraphs of a tag. -/
theorem tagParts_headings (hunion : declared.Proper) (h : tag.Proper) :
    ∃ params parts, factoryParams .typescript tag = .ok params ∧
      tagParts .typescript declared tag = .ok parts ∧
      parts.flatMap headings = tagHeadings declared tag params := by
  obtain ⟨record, hrecord, hfirst⟩ := tagAlias_headings hunion h
  obtain ⟨params, text, hparams, htext, hsecond⟩ := factory_headings hunion h
  refine ⟨params, [record, text], hparams, ?_, ?_⟩
  · rw [tagParts, hrecord, htext]
    rfl
  · rw [List.flatMap_cons, List.flatMap_singleton, hfirst, hsecond]
    rfl

end Tags

/-! ## Unions -/

section Unions

variable {declared : Union}

/-- A text of one line. -/
theorem headings_line {line : String} (h : Opens true line) : headings line = [line] := by
  have hone := headings_paragraph h (List.forall_mem_nil _)
  rwa [String.intercalate_singleton] at hone

theorem unionAlias_headings (h : declared.Proper) :
    ∃ own text, typeText (.named declared.name declared.params) = .ok own ∧
      unionAlias .typescript declared = .ok (some text) ∧
      headings text = ["type " ++ own ++ " = " ++
        " | ".intercalate (declared.tags.map (tagTypeText declared)) ++ ";"] := by
  have hwell := h.wellFormed
  rw [Union.wellFormed, Bool.and_eq_true] at hwell
  have hparams := (Bool.and_eq_true_iff.mp hwell.2).1
  obtain ⟨own, hown⟩ := typeText_ok (.named declared.name declared.params) hparams
  have hparams : ∀ param ∈ declared.params, IfOk (typeText param) IsLine := by
    obtain ⟨names, hnames, hplain⟩ := h.params
    rw [hnames, List.forall_mem_map]
    exact fun name hname => ifOk_ok (isLine_name (hplain name hname))
  have hline : IsLine own := named_isLine h.name hparams own hown
  have hmembers : IsLine (" | ".intercalate (declared.tags.map (tagTypeText declared))) := by
    refine isLine_intercalate (by decide) (List.forall_mem_map.mpr fun tag htag => ?_)
    exact tagTypeText_isLine h (h.tags tag htag)
  refine ⟨own, _, hown, ?_, headings_line ?_⟩
  · have hnames : declared.tags.mapM (tagType declared) =
        .ok (declared.tags.map (tagTypeText declared)) :=
      mapM_eq_ok fun tag _ => tagType_eq_ok h.named tag
    rw [unionAlias, hnames, hown]
    rfl
  · have hhead : Opens true "type " := ⟨by decide, rfl⟩
    have hequals : IsLine " = " := by decide
    exact (((hhead.append hline).append hequals).append hmembers).append (by decide)

/-- The lines of a union at the margin. -/
theorem union_headings (h : declared.Proper) :
    ∃ text own, ∃ params : Tag → String, union .typescript declared = .ok text ∧
      typeText (.named declared.name declared.params) = .ok own ∧
      (∀ tag ∈ declared.tags, factoryParams .typescript tag = .ok (params tag)) ∧
      headings text = (declared.tags.flatMap fun tag => tagHeadings declared tag (params tag)) ++
        ["type " ++ own ++ " = " ++
          " | ".intercalate (declared.tags.map (tagTypeText declared)) ++ ";"] := by
  have htags (tag : Tag) : ∃ params, tag ∈ declared.tags →
      factoryParams .typescript tag = .ok params ∧ ∃ parts,
        tagParts .typescript declared tag = .ok parts ∧
        parts.flatMap headings = tagHeadings declared tag params := by
    by_cases htag : tag ∈ declared.tags
    · obtain ⟨params, parts, hparams, hparts⟩ := tagParts_headings h (h.tags tag htag)
      exact ⟨params, fun _ => ⟨hparams, parts, hparts⟩⟩
    · exact ⟨"", fun hmem => absurd hmem htag⟩
  choose params hparams using htags
  obtain ⟨own, whole, hown, hwhole, hlast⟩ := unionAlias_headings h
  obtain ⟨parts, hparts⟩ := exists_ok_mapM fun tag htag =>
    (hparams tag htag).2.imp fun parts hpart => hpart.1
  have hheadings := ifOk_mapM (R := fun row part => row.flatMap headings = part)
    (g := fun tag => tagHeadings declared tag (params tag)) (f := tagParts .typescript declared)
    (fun tag htag row hrow => by
      obtain ⟨found, hfound, heq⟩ := (hparams tag htag).2
      cases hfound.symm.trans hrow
      exact heq) parts hparts
  refine ⟨"\n\n".intercalate (parts.flatten ++ [whole]), own, params, ?_, hown,
    fun tag htag => (hparams tag htag).1, ?_⟩
  · rw [union, hparts, hwhole]
    rfl
  · rw [headings_paragraphs, List.flatMap_append, List.flatMap_flatten_of_forall₂ hheadings,
      List.flatMap_singleton, hlast]
    rfl

end Unions

/-! ## Declared types -/

/-- A line that declares a type. -/
def isAlias (line : String) : Bool :=
  "type ".toList.isPrefixOf line.toList

/-- The lines of a text that declare types. -/
def aliases (text : String) : List String :=
  (lines text).filter isAlias

/-- The name behind the word `type`. -/
def declaredName (line : String) : String :=
  String.ofList ((line.toList.drop "type ".length).takeWhile isNamePart)

theorem startsWithName_of_isAlias {line : String} (h : isAlias line = true) :
    startsWithName line = true := by
  obtain ⟨rest, hrest⟩ := List.isPrefixOf_iff_prefix.mp h
  rw [startsWithName, ← hrest]
  rfl

theorem aliases_eq (text : String) : aliases text = (headings text).filter isAlias := by
  rw [headings, List.filter_filter, aliases]
  refine List.filter_congr fun line _ => ?_
  cases h : isAlias line with
  | false => rfl
  | true => exact (startsWithName_of_isAlias h).symm

theorem isAlias_type (rest : String) : isAlias ("type " ++ rest) = true := by
  rw [isAlias, String.toList_append, List.isPrefixOf_iff_prefix]
  exact List.prefix_append _ _

theorem isAlias_function (rest : String) : isAlias ("function " ++ rest) = false := by
  rw [isAlias, String.toList_append]
  rfl

/-- Of the lines at the margin those of the functions declare no type. -/
theorem aliases_of_headings {text members : String} {declared : Union} {own : String}
    {params : Tag → String}
    (h : headings text = (declared.tags.flatMap fun tag => tagHeadings declared tag (params tag)) ++
      ["type " ++ own ++ " = " ++ members ++ ";"]) :
    aliases text = (declared.tags.map fun tag => "type " ++ tagTypeText declared tag ++ " = \x7b") ++
      ["type " ++ own ++ " = " ++ members ++ ";"] := by
  have htag (tag : Tag) : (tagHeadings declared tag (params tag)).filter isAlias =
      ["type " ++ tagTypeText declared tag ++ " = \x7b"] := by
    simp only [tagHeadings, String.append_assoc, List.filter_cons, isAlias_type, isAlias_function,
      List.filter_nil, if_true, Bool.false_eq_true, if_false]
  have hlast : isAlias ("type " ++ own ++ " = " ++ members ++ ";") = true := by
    simp only [String.append_assoc, isAlias_type]
  rw [aliases_eq, h, List.filter_append, List.filter_flatMap, List.filter_cons_of_pos hlast,
    List.filter_nil, List.map_eq_flatMap]
  simp only [htag]

/-- A name is read up to the list of parameters behind it, or to the blank if there is none. -/
theorem declaredName_angled {name : String} (h : isPlainName name) (names : List String)
    (rest : String) : declaredName ("type " ++ (name ++ angled names) ++ (" " ++ rest)) = name := by
  have hhead : ∀ c ∈ (angled names ++ (" " ++ rest)).toList.head?, isNamePart c = false := by
    unfold angled
    split <;> simp [isNamePart]
  have hcut : ("type " ++ (name ++ angled names) ++ (" " ++ rest)).toList.drop "type ".length =
      name.toList ++ (angled names ++ (" " ++ rest)).toList := by
    simp only [String.append_assoc, String.toList_append]
    rfl
  rw [declaredName, hcut, (List.takeWhile_of_head (isNamePart_of_isPlainName h).2 hhead).1,
    String.ofList_toList]

theorem typeTexts_vars (names : List String) : typeTexts (names.map Ty.var) = .ok names := by
  induction names with
  | nil => rfl
  | cons name names ih =>
    rw [List.map_cons, typeTexts, ih]
    rfl

/-- Only a list with one parameter is not written with its name. -/
theorem typeText_params {name : String} {names : List String}
    (h : ¬ (name = "List" ∧ names.length = 1)) :
    typeText (.named name (names.map Ty.var)) = .ok (name ++ angled names) := by
  rw [typeText, typeTexts_vars]
  show Except.ok (appliedType name (names.map Ty.var) names) = _
  cases names with
  | nil => exact congrArg Except.ok String.append_empty.symm
  | cons first rest =>
    have hangled : name ++ angled (first :: rest) =
        name ++ "<" ++ ", ".intercalate (first :: rest) ++ ">" := by
      simp only [angled, String.append_assoc]
      rfl
    rw [hangled]
    cases rest with
    | nil =>
      have hname : name ≠ "List" := fun hname => h ⟨hname, rfl⟩
      rw [String.intercalate_singleton]
      exact congrArg Except.ok (if_neg hname)
    | cons _ _ => rfl

end Script

open Script

/-- The types that typescript declares for a union of a program. There is one for each tag, under
the name of the tag and with the parameters that the tag mentions, and the last is that of the
union. If the union is no list with one parameter, then this one has its name and all its
parameters, and a name is declared twice exactly if the union gives it twice. -/
theorem Program.ofText_aliases {text : String} {declared : Union}
    (h : .union declared ∈ (ofText text).body) (count : Int) :
    declared.paramNames = .ok declared.boundNames ∧
    (∀ tag, declared.tagParams tag = .ok (declared.boundIn tag)) ∧
    ∃ output own, Dialect.typescript.decl (.union declared) count = .ok output count ∧
      aliases output =
        (declared.tags.map fun tag =>
          "type " ++ (tag.name ++ angled (declared.boundIn tag)) ++ " = \x7b") ++
        ["type " ++ own ++ " = " ++
          " | ".intercalate (declared.tags.map fun tag =>
            tag.name ++ angled (declared.boundIn tag)) ++ ";"] ∧
      (¬ (declared.name = "List" ∧ declared.params.length = 1) →
        own = declared.name ++ angled declared.boundNames ∧
        (aliases output).map declaredName = declared.tags.map Tag.name ++ [declared.name] ∧
        (((aliases output).map declaredName).Nodup ↔ (declared.tags.map Tag.name).Nodup ∧
          ∀ tag ∈ declared.tags, tag.name ≠ declared.name)) := by
  have hproper := (body_proper text _ h).of_union
  obtain ⟨output, own, params, houtput, hown, _, hheadings⟩ := union_headings hproper
  have haliases := aliases_of_headings hheadings
  refine ⟨Union.paramNames_eq_ok hproper.named, Union.tagParams_eq_ok hproper.named, output, own,
    Render.lift_eq_ok houtput count, haliases, fun hlist => ?_⟩
  obtain ⟨names, hparams, hnames⟩ := hproper.params
  rw [hparams, List.length_map] at hlist
  rw [hparams, typeText_params hlist] at hown
  cases hown
  have hdeclared : (aliases output).map declaredName =
      declared.tags.map Tag.name ++ [declared.name] := by
    have hlast (members : String) :
        "type " ++ (declared.name ++ angled names) ++ " = " ++ members ++ ";" =
          "type " ++ (declared.name ++ angled names) ++ (" " ++ ("= " ++ members ++ ";")) := by
      rw [show " = " = " " ++ "= " from rfl]
      simp only [String.append_assoc]
    rw [haliases, List.map_append, List.map_map, List.map_singleton, hlast,
      declaredName_angled hproper.name]
    refine congrArg (· ++ [declared.name]) (List.map_congr_left fun tag htag => ?_)
    rw [Function.comp_apply, show " = \x7b" = " " ++ "= \x7b" from rfl]
    exact declaredName_angled (hproper.tags tag htag).name _ _
  refine ⟨by rw [Union.boundNames_of_vars hparams], hdeclared, ?_⟩
  rw [hdeclared, List.nodup_append]
  simp

/-- A union may have the name of one of its tags. -/
theorem Program.ofText_aliases_box :
    ∃ declared output, .union declared ∈ (ofText "type Box a = Box \x7b item: a \x7d").body ∧
      Dialect.typescript.decl (.union declared) 0 = .ok output 0 ∧
      aliases output = ["type Box<a> = \x7b", "type Box<a> = Box<a>;"] ∧
      (aliases output).map declaredName = ["Box", "Box"] := by
  have hmem : .union ⟨"Box", [.var "a"], [⟨"Box", [⟨"item", .var "a"⟩]⟩]⟩ ∈
      (ofText "type Box a = Box \x7b item: a \x7d").body := by decide +kernel
  obtain ⟨_, _, output, own, houtput, haliases, hnames⟩ := ofText_aliases hmem 0
  obtain ⟨rfl, hdeclared, _⟩ := hnames (by decide)
  exact ⟨_, output, hmem, houtput, haliases.trans (by decide +kernel), hdeclared⟩

/-- Two programs without errors in which the types of a union are not declared once each: one gives
a name twice, and the other gives an array for the union. -/
theorem Program.ofText_aliases_clash :
    (∃ declared output, (ofText "type Box = Box").errors = [] ∧
      (ofText "type Box = Box").body = [.union declared] ∧
      Dialect.typescript.decl (.union declared) 0 = .ok output 0 ∧
      (aliases output).map declaredName = ["Box", "Box"]) ∧
    ∃ declared output, (ofText "type List a = Nil").errors = [] ∧
      (ofText "type List a = Nil").body = [.union declared] ∧
      Dialect.typescript.decl (.union declared) 0 = .ok output 0 ∧
      aliases output = ["type Nil = \x7b", "type a[] = Nil;"] := by
  constructor
  · exact ⟨⟨"Box", [], [⟨"Box", []⟩]⟩, _, by decide +kernel, by decide +kernel, rfl,
      by decide +kernel⟩
  · exact ⟨⟨"List", [.var "a"], [⟨"Nil", []⟩]⟩, _, by decide +kernel, by decide +kernel, rfl,
      by decide +kernel⟩

end Polyglot
