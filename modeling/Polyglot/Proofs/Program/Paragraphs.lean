import Polyglot.Proofs.Block.Agreement
import Polyglot.Proofs.Block.Layout
import Polyglot.Proofs.Program.Errors
import Polyglot.Target

/-!
# A program as paragraphs

In the derw dialect each declaration of a program is a paragraph, with a blank line behind it. No
line inside a paragraph looks like the end of one, whatever the declaration is made of, so cutting
the text into blocks gives the paragraphs back.

Results:
1. `generate_rendered`: the text of a program is the text of its paragraphs.
2. `blocks_paragraphsText`: the blocks of that text are the paragraphs.
3. `blocks_generate`: one block for each declaration, with its form and its text.
-/

namespace Polyglot

open Grammar Block

/-! ## The body of a program -/

namespace Program

theorem body_proper (text : String) : ∀ decl ∈ (ofText text).body, decl.Proper := by
  intro decl hdecl
  rw [body_eq] at hdecl
  obtain ⟨block, _, hread⟩ := List.mem_filterMap.mp hdecl
  cases hblock : block.read with
  | error d =>
    rw [hblock] at hread
    cases hread
  | ok found =>
    rw [hblock] at hread
    cases hread
    exact read_proper hblock

end Program

/-! ## Targets -/

theorem Target.ofName?_name (target : Target) : ofName? target.name = some target := by
  cases target <;> decide

theorem generate_of_emit {target : Target} {body : List Decl} {text : String} {after : Int}
    (h : target.dialect.emit body 0 = .ok text after) :
    generate target.name body = .ok (text ++ "\n") := by
  have htarget : target.generate body = .ok (text ++ "\n") := by
    rw [Target.generate, h]
  rw [generate, target.ofName?_name]
  simp only [htarget]

/-! ## The text of proper declarations -/

/-- The lines that the derw dialect makes of a declaration. -/
structure Decl.Rendered (decl : Decl) (lines : List String) : Prop where
  written : decl.Written lines
  text : Dialect.derw.decl decl 0 = .ok (Text.unlines lines) 0

theorem exists_rendered {body : List Decl} (h : ∀ decl ∈ body, decl.Proper) :
    ∃ paragraphs, List.Forall₂ Decl.Rendered body paragraphs := by
  induction body with
  | nil => exact ⟨[], .nil⟩
  | cons decl body ih =>
    rw [List.forall_mem_cons] at h
    obtain ⟨lines, hwritten, htext⟩ := h.1.written
    obtain ⟨paragraphs, hparagraphs⟩ := ih h.2
    exact ⟨lines :: paragraphs, .cons ⟨hwritten, htext⟩ hparagraphs⟩

theorem decls_rendered {body : List Decl} {paragraphs : List (List String)}
    (h : List.Forall₂ Decl.Rendered body paragraphs) :
    Dialect.derw.decls body 0 = .ok (paragraphs.map Text.unlines) 0 := by
  induction h with
  | nil => rfl
  | cons hdecl _ ih =>
    simp only [Dialect.decls, Bind.bind, EStateM.bind, hdecl.text, ih]
    rfl

/-- The text of paragraphs, with a line feed at its end. -/
def paragraphsText (paragraphs : List (List String)) : String :=
  "\n\n".intercalate (paragraphs.map Text.unlines) ++ "\n"

theorem generate_rendered {body : List Decl} {paragraphs : List (List String)}
    (h : List.Forall₂ Decl.Rendered body paragraphs) :
    generate "derw" body = .ok (paragraphsText paragraphs) := by
  have hemit : Target.derw.dialect.emit body 0 =
      .ok ("\n\n".intercalate (paragraphs.map Text.unlines)) 0 := by
    show Dialect.derw.emit body 0 = _
    unfold Dialect.emit
    simp only [Bind.bind, EStateM.bind, set, MonadStateOf.set, EStateM.set, decls_rendered h]
    rfl
  exact generate_of_emit hemit

theorem generate_written {body : List Decl} (h : ∀ decl ∈ body, decl.Proper) :
    ∃ paragraphs, List.Forall₂ Decl.Written body paragraphs ∧
      generate "derw" body = .ok (paragraphsText paragraphs) := by
  obtain ⟨paragraphs, hparagraphs⟩ := exists_rendered h
  exact ⟨paragraphs, hparagraphs.imp fun _ _ hdecl => hdecl.written, generate_rendered hparagraphs⟩

theorem unlines_blank {lines : List String} (h : lines ≠ []) :
    Text.unlines (lines ++ [""]) = Text.unlines lines ++ "\n" := by
  rw [unlines_append h (List.cons_ne_nil _ _), show Text.unlines [""] = "" from rfl,
    String.append_empty]

/-- Every paragraph is followed by an empty line. -/
theorem paragraphsText_eq {lines : List String} {paragraphs : List (List String)}
    (h : ∀ part ∈ lines :: paragraphs, part ≠ []) :
    paragraphsText (lines :: paragraphs) =
      Text.unlines ((lines :: paragraphs).flatMap fun part => part ++ [""]) := by
  induction paragraphs generalizing lines with
  | nil =>
    rw [List.forall_mem_singleton] at h
    rw [List.flatMap_singleton, unlines_blank h, paragraphsText, List.map_singleton,
      String.intercalate_singleton]
  | cons second paragraphs ih =>
    rw [List.forall_mem_cons] at h
    have hrest : (second :: paragraphs).flatMap (fun part => part ++ [""]) ≠ [] := by
      rw [List.flatMap_cons]
      simp
    have hsplit : paragraphsText (lines :: second :: paragraphs) =
        Text.unlines lines ++ "\n\n" ++ paragraphsText (second :: paragraphs) := by
      rw [paragraphsText, List.map_cons, List.map_cons, String.intercalate_cons_cons,
        String.append_assoc]
      rfl
    rw [List.flatMap_cons, unlines_append (List.append_ne_nil_of_left_ne_nil h.1 _) hrest, ← ih h.2,
      unlines_blank h.1, hsplit, show "\n\n" = "\n" ++ "\n" from rfl, ← String.append_assoc]

theorem written_ne_nil {decl : Decl} {lines : List String} (h : decl.Written lines) :
    lines ≠ [] := by
  cases h with
  | union _ _ _ => exact List.cons_ne_nil _ _
  | equation _ _ _ => exact List.cons_ne_nil _ _

theorem written_of_mem {body : List Decl} {paragraphs : List (List String)}
    (h : List.Forall₂ Decl.Written body paragraphs) :
    ∀ part ∈ paragraphs, ∃ decl : Decl, decl.Written part := by
  induction h with
  | nil => exact fun part hpart => absurd hpart List.not_mem_nil
  | cons hdecl _ ih => exact List.forall_mem_cons.mpr ⟨⟨_, hdecl⟩, ih⟩

theorem lines_paragraphsText {body : List Decl} {paragraphs : List (List String)}
    (h : List.Forall₂ Decl.Written body paragraphs) (hne : paragraphs ≠ []) :
    Text.lines (paragraphsText paragraphs) = paragraphs.flatMap fun part => part ++ [""] := by
  have hwritten := written_of_mem h
  obtain ⟨first, rest, rfl⟩ := List.exists_cons_of_ne_nil hne
  rw [paragraphsText_eq]
  · refine lines_unlines (by simp) fun line hline => ?_
    obtain ⟨part, hpart, hline⟩ := List.mem_flatMap.mp hline
    obtain ⟨decl, hdecl⟩ := hwritten part hpart
    rcases List.mem_append.mp hline with hline | hline
    · rw [← lines_written hdecl] at hline
      exact not_mem_of_mem_lines hline
    · rw [List.mem_singleton.mp hline]
      exact List.not_mem_nil
  · intro part hpart
    obtain ⟨decl, hdecl⟩ := hwritten part hpart
    exact written_ne_nil hdecl

/-! ## Blocks -/

/-- Each paragraph is a block of its own. -/
theorem segment_paragraphs {R : Decl → List String → Prop} {body : List Decl}
    {paragraphs : List (List String)} (h : List.Forall₂ R body paragraphs)
    (hwritten : ∀ decl lines, R decl lines → decl.Written lines) (number : Int) :
    List.Forall₂ (fun decl block => R decl block.lines) body
      (segment number [] (paragraphs.flatMap fun part => part ++ [""])) := by
  induction h generalizing number with
  | nil => exact .nil
  | @cons decl lines body paragraphs hdecl _ ih =>
    have hlines := hwritten decl lines hdecl
    rw [List.flatMap_cons, List.append_assoc, (piece_written hlines).segment_eq,
      List.singleton_append, segment_blank (written_ne_nil hlines)]
    exact .cons hdecl (ih _)

theorem blocks_paragraphsText {R : Decl → List String → Prop} {body : List Decl}
    {paragraphs : List (List String)} (h : List.Forall₂ R body paragraphs)
    (hwritten : ∀ decl lines, R decl lines → decl.Written lines) :
    List.Forall₂ (fun decl block => R decl block.lines) body
      (Block.ofText (paragraphsText paragraphs)) := by
  cases hparagraphs : paragraphs with
  | nil =>
    rw [hparagraphs] at h
    cases h
    exact .nil
  | cons first rest =>
    rw [← hparagraphs, Block.ofText, lines_paragraphsText (h.imp hwritten) (by simp [hparagraphs])]
    exact segment_paragraphs h hwritten 0

/-- The heading lines of a written declaration show its form. -/
theorem form_written {decl : Decl} {lines : List String} (h : decl.Written lines) :
    ∃ form, decl.form? = some form ∧ Heading.form lines = some form := by
  cases h with
  | union _ _ _ => exact ⟨.union, rfl, Heading.form_headLine _ _⟩
  | @equation declared lines h _ _ =>
    refine ⟨_, form?_declaration declared, ?_⟩
    rw [Heading.form_equation h, List.length_cons, Equation.paramNames, List.length_map]
    simp only [Nat.lt_add_left_iff_pos]

/-- A program is written in the derw dialect with one block for each of its declarations, in their
order. The hint of a block is the form of the declaration, and its text is what the declaration is
written as alone. -/
theorem blocks_generate (text : String) :
    ∃ out, generate "derw" (Program.ofText text).body = .ok out ∧
      List.Forall₂
        (fun decl block => (∃ form, decl.form? = some form ∧ block.hint = some form) ∧
          Dialect.derw.decl decl 0 = .ok block.text 0 ∧
          generate "derw" [decl] = .ok (block.text ++ "\n"))
        (Program.ofText text).body (Block.ofText out) := by
  obtain ⟨paragraphs, hrendered⟩ := exists_rendered (Program.body_proper text)
  refine ⟨_, generate_rendered hrendered, ?_⟩
  have hblocks := blocks_paragraphsText hrendered fun _ _ hdecl => hdecl.written
  refine List.forall₂_iff_zip.mpr ⟨hblocks.length_eq, fun {decl block} hpair => ?_⟩
  have hdecl : decl.Rendered block.lines := (List.forall₂_iff_zip.mp hblocks).2 hpair
  have hhint : block.hint = Heading.form block.lines :=
    (segments_ofText _).hint_of_mem (List.of_mem_zip hpair).2
  refine ⟨?_, hdecl.text, ?_⟩
  · rw [hhint]
    exact form_written hdecl.written
  · rw [generate_rendered (.cons hdecl .nil)]
    rfl

end Polyglot
