import Polyglot.Proofs.Program.Paragraphs

/-!
# Writing a program down and reading it again

The declarations of a program are written in the derw dialect with a blank line between them. What
is read from that text are the normal forms of the declarations, less those in which a comparison is
the right operand of a comparison: there the parentheses that the grammar needs are not written.

Results:
1. `ofText_generate`: what is read again.
2. `ofText_generate_eq_iff`: exactly when that is the program itself.
3. `generate_ofText_generate`: a program of which nothing is lost has the same text in every target.
-/

namespace Polyglot

open Grammar Block

/-! ## Reading it again -/

theorem body_paragraphsText {body : List Decl} {paragraphs : List (List String)}
    (h : List.Forall₂ Decl.Written body paragraphs) :
    (Program.ofText (paragraphsText paragraphs)).body = body.filterMap Decl.reread := by
  rw [Program.body_eq]
  have hblocks := blocks_paragraphsText h fun _ _ hwritten => hwritten
  generalize Block.ofText (paragraphsText paragraphs) = blocks at hblocks
  clear h
  induction hblocks with
  | nil => rfl
  | cons hdecl _ ih => rw [List.filterMap_cons, read_written hdecl, ih, List.filterMap_cons]

/-- A program is written without failure, and the text is read as what is left of its
declarations. -/
theorem ofText_generate (text : String) :
    ∃ out, generate "derw" (Program.ofText text).body = .ok out ∧
      (Program.ofText out).body = (Program.ofText text).body.filterMap Decl.reread := by
  obtain ⟨paragraphs, hwritten, hgenerate⟩ := generate_written (Program.body_proper text)
  exact ⟨_, hgenerate, body_paragraphsText hwritten⟩

theorem reread_eq_some_self {decl : Decl} :
    decl.reread = some decl ↔ decl.unchained = true ∧ decl.normal = decl := by
  unfold Decl.reread
  split
  · next hgood => simp [hgood]
  · next hbad => simp [hbad]

/-- The text of a program is read as the program itself exactly if no comparison in it has a
comparison as its right operand and every type in it is in normal form. -/
theorem ofText_generate_eq_iff (text : String) :
    ∃ out, generate "derw" (Program.ofText text).body = .ok out ∧
      ((Program.ofText out).body = (Program.ofText text).body ↔
        ∀ decl ∈ (Program.ofText text).body, decl.unchained = true ∧ decl.normal = decl) := by
  obtain ⟨out, hgenerate, hbody⟩ := ofText_generate text
  refine ⟨out, hgenerate, ?_⟩
  rw [hbody, List.filterMap_eq_self]
  exact forall₂_congr fun _ _ => reread_eq_some_self

-- Without its parentheses the comparison cannot be read, and the declaration is lost.
example :
    generate "derw" (Program.ofText "x = a == (b == c)").body =
        .ok "x: any\nx =\n    a == b == c\n" ∧
      (Program.ofText "x: any\nx =\n    a == b == c\n").body = [] := by
  decide +kernel

/-! ## Nothing lost -/

/-- If no declaration is lost, each is left in its normal form. -/
theorem filterMap_reread_of_length {body : List Decl}
    (h : (body.filterMap Decl.reread).length = body.length) :
    body.filterMap Decl.reread = body.map Decl.normal := by
  have hkept : ∀ decl ∈ body, decl.reread = some decl.normal := by
    intro decl hdecl
    have hsome := List.filterMap_length_eq_length.mp h decl hdecl
    unfold Decl.reread at hsome ⊢
    split at hsome
    · next hgood => rw [if_pos hgood]
    · cases hsome
  rw [List.filterMap_congr hkept, ← List.filterMap_eq_map]
  rfl

theorem generate_normal (target : String) (body : List Decl) :
    generate target (body.map Decl.normal) = generate target body := by
  unfold generate Target.generate
  simp only [Dialect.emit_normal]

/-- A text of which nothing is lost when it is read compiles to the same in every target, and
writing it down again changes nothing. -/
theorem generate_ofText_generate (text : String) :
    ∃ out, generate "derw" (Program.ofText text).body = .ok out ∧
      ((Program.ofText out).body.length = (Program.ofText text).body.length →
        (∀ target, generate target (Program.ofText out).body =
          generate target (Program.ofText text).body) ∧
        generate "derw" (Program.ofText out).body = .ok out) := by
  obtain ⟨out, hgenerate, hbody⟩ := ofText_generate text
  refine ⟨out, hgenerate, fun hlength => ?_⟩
  rw [hbody] at hlength
  have hsame : ∀ target, generate target (Program.ofText out).body =
      generate target (Program.ofText text).body := by
    intro target
    rw [hbody, filterMap_reread_of_length hlength, generate_normal]
  exact ⟨hsame, (hsame "derw").trans hgenerate⟩

/-- The argument comes back as a variable, and no target shows it. -/
theorem generate_builtin_argument :
    generate "derw" (Program.ofText "x: List (number)\nx = [ 1 ]").body =
        .ok "x: List number\nx =\n    [ 1 ]\n" ∧
      (Program.ofText "x: List number\nx =\n    [ 1 ]\n").body ≠
        (Program.ofText "x: List (number)\nx = [ 1 ]").body ∧
      ∀ target, generate target (Program.ofText "x: List number\nx =\n    [ 1 ]\n").body =
        generate target (Program.ofText "x: List (number)\nx = [ 1 ]").body := by
  have hknown : generate "derw" (Program.ofText "x: List (number)\nx = [ 1 ]").body =
      .ok "x: List number\nx =\n    [ 1 ]\n" := by decide +kernel
  have hlength : (Program.ofText "x: List number\nx =\n    [ 1 ]\n").body.length =
      (Program.ofText "x: List (number)\nx = [ 1 ]").body.length := by decide +kernel
  obtain ⟨out, hgenerate, hsame⟩ := generate_ofText_generate "x: List (number)\nx = [ 1 ]"
  obtain rfl : "x: List number\nx =\n    [ 1 ]\n" = out :=
    Except.ok.inj (hknown.symm.trans hgenerate)
  exact ⟨hknown, by decide +kernel, (hsame hlength).1⟩

end Polyglot
