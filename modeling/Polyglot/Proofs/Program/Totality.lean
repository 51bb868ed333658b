import Polyglot.Proofs.Block.Blame
import Polyglot.Proofs.Dialect.Totality
import Polyglot.Proofs.Program.RoundTrip
import Polyglot.Proofs.Scope.FirstIssue

/-!
# Compiling never fails

Every text compiles to each of the four targets. A block that cannot be read is reported, and what
the other blocks declare is well-formed, which is all that the check of its names and the targets
rely on (`compile_total`).
-/

namespace Polyglot

/-! ## Targets -/

namespace Target

/-- A target leaves no decision open. -/
theorem dialect_decided (target : Target) :
    ∃ style : Style, target.dialect = .styled style ∧ style.decided = true := by
  cases target <;> exact ⟨_, rfl, rfl⟩

theorem generate_ok (target : Target) {body : List Decl}
    (h : ∀ decl ∈ body, decl.wellFormed = true) : ∃ text, target.generate body = .ok text := by
  obtain ⟨style, hdialect, hstyle⟩ := target.dialect_decided
  obtain ⟨text, htext⟩ := Dialect.emit_ok hstyle h 0
  refine ⟨text ++ "\n", ?_⟩
  rw [generate, hdialect, htext]

end Target

/-! ## Programs -/

/-- What is well-formed lacks nothing that the check asks for. -/
theorem Scope.check_ok {decl : Decl} (h : decl.wellFormed = true) (scope : Scope) :
    ∃ issue?, scope.check decl = .ok issue? := by
  refine exists_check (fun missing hlacks => ?_) scope
  cases hlacks with
  | param hparts => exact Union.named_of_wellFormed h _ hparts
  | params _ | type _ _ _ | result _ _ => cases h

namespace Program

open Block

theorem body_wellFormed (text : String) :
    ∀ decl ∈ (ofText text).body, decl.wellFormed = true :=
  fun decl hdecl => (body_proper text decl hdecl).wellFormed

/-- Of a block either the declaration is kept or the failure is reported. -/
theorem kept_or_reported {text : String} {block : Block} (hblock : block ∈ Block.ofText text) :
    (∃ decl ∈ (ofText text).body, block.read = .ok decl) ∨
    ∃ d, block.read = .error d ∧ block.report d.message ∈ (ofText text).errors := by
  cases hread : block.read with
  | ok decl =>
    refine .inl ⟨decl, ?_, rfl⟩
    rw [body_eq]
    exact List.mem_filterMap.mpr ⟨block, hblock, by rw [hread]; rfl⟩
  | error d =>
    refine .inr ⟨d, rfl, ?_⟩
    rw [report_mem_errors_iff hblock, problem?, hread]

end Program

/-- Every text compiles to every target, and the errors of the text come with the result. Each block
is kept or reported, and a failure is always one of a definite part of the language. The
declarations kept are well-formed, each of them can be checked against any scope, and every target
writes each of them at any indentation. -/
theorem compile_total (source : String) :
    (∀ target : Target, ∃ text,
      compile source target.name = .ok (text, (Program.ofText source).errors)) ∧
    (∀ block ∈ Block.ofText source,
      (∃ decl ∈ (Program.ofText source).body, block.read = .ok decl) ∨
      ∃ d, block.read = .error d ∧ d.area ≠ .general ∧
        block.report d.message ∈ (Program.ofText source).errors) ∧
    ∀ decl ∈ (Program.ofText source).body, decl.wellFormed = true ∧
      (∀ scope : Scope, ∃ issue?, scope.check decl = .ok issue?) ∧
      ∀ (target : Target) (count : Int), ∃ text,
        target.dialect.decl decl count = .ok text count := by
  have hbody := Program.body_wellFormed source
  refine ⟨fun target => ?_, fun block hblock => ?_, fun decl hdecl =>
    ⟨hbody decl hdecl, Scope.check_ok (hbody decl hdecl), ?_⟩⟩
  · obtain ⟨text, htext⟩ := target.generate_ok hbody
    refine ⟨text, ?_⟩
    rw [compile, generate, target.ofName?_name]
    dsimp only
    rw [htext]
    rfl
  · rcases Program.kept_or_reported hblock with hkept | ⟨d, hread, hreport⟩
    · exact .inl hkept
    · exact .inr ⟨d, hread, Block.area_ne_general hread, hreport⟩
  · intro target count
    obtain ⟨style, hdialect, hstyle⟩ := target.dialect_decided
    rw [hdialect]
    exact Dialect.decl_succeeds hstyle (hbody decl hdecl) count

end Polyglot
