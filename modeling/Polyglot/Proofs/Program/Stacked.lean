import Polyglot.Proofs.Block.Moved
import Polyglot.Proofs.Program.Errors
import Polyglot.Proofs.Token.Joined

/-!
# One program behind another

Two texts with a blank line between them are one program. The blank line closes whatever the first
text leaves open, so the blocks of the whole are those of the first text and those of the second,
moved down. What cannot be read keeps its diagnostic; the scope only grows, so what resolves on its
own still resolves.

Results:
1. `blocks_stacked`: the blocks of the whole.
2. `Scope.check_mono`: a larger scope has no new issues.
3. `ofText_stacked`: declarations and errors of the whole.
-/

namespace Polyglot

/-! ## Lines -/

namespace Text

/-- Two texts, with a blank line between them. -/
def stacked (first second : String) : String :=
  first ++ "\n\n" ++ second

/-- How far a text moves down when it comes behind another: the lines of that one, and the blank
line. -/
def room (first : String) : Int :=
  (lines first).length + 1

theorem lines_stacked (first second : String) :
    lines (stacked first second) = lines first ++ "" :: lines second := by
  have hsecond := lines_ne_nil second
  have htext : stacked first second = unlines (lines first ++ "" :: lines second) := by
    rw [unlines_append (lines_ne_nil first) (List.cons_ne_nil _ _), unlines_cons hsecond,
      unlines_lines, unlines_lines, stacked, show "\n\n" = "\n" ++ "\n" from rfl,
      String.empty_append]
    simp only [String.append_assoc]
  rw [htext]
  have hne := List.append_ne_nil_of_left_ne_nil (lines_ne_nil first) ("" :: lines second)
  refine lines_unlines hne fun line hline => ?_
  rcases List.mem_append.mp hline with hline | hline
  · exact not_mem_of_mem_lines hline
  · rcases List.mem_cons.mp hline with rfl | hline
    · exact List.not_mem_nil
    · exact not_mem_of_mem_lines hline

end Text

/-! ## Blocks -/

namespace Block

/-- A blank line closes the block before it, and nothing behind it joins that block. -/
theorem segment_append_blank (number : Int) (current lines rest : List String) :
    segment number current (lines ++ "" :: rest) =
      segment number current lines ++ segment (number + lines.length + 1) [] rest := by
  have hcount (number : Int) (line : String) (lines : List String) :
      number + (line :: lines).length + 1 = number + 1 + lines.length + 1 := by
    rw [List.length_cons, Int.natCast_succ, Int.add_right_comm number 1, ← Int.add_assoc]
  fun_induction segment number current lines with
  | case1 number current =>
    rw [List.nil_append, segment, if_pos (by rfl), List.length_nil, Int.natCast_zero, Int.add_zero]
  | case2 number current line lines hseparates ih =>
    rw [List.cons_append, segment, if_pos hseparates, ih, List.append_assoc, hcount]
  | case3 number current line lines hseparates hjoins ih =>
    rw [List.cons_append, segment, if_neg hseparates, if_pos hjoins, ih, hcount]
  | case4 number current line lines hseparates hjoins ih =>
    rw [List.cons_append, segment, if_neg hseparates, if_neg hjoins, ih, List.append_assoc,
      hcount]

theorem blocks_stacked (first second : String) :
    ofText (Text.stacked first second) =
      ofText first ++ (ofText second).map (moved (Text.room first)) := by
  unfold ofText
  rw [Text.lines_stacked, segment_append_blank, ← segment_moved, Text.room, Int.add_assoc]

end Block

/-! ## Scopes -/

namespace Scope

theorem checkNamed_mono {scope scope' : Scope} (h : scope.names ⊆ scope'.names) {types : List Ty}
    (hnone : scope.checkNamed types = none) : scope'.checkNamed types = none := by
  unfold checkNamed at hnone ⊢
  rw [Option.map_eq_none_iff, List.find?_eq_none] at hnone ⊢
  intro part hpart
  have hin := hnone part hpart
  simp only [contains, Bool.not_eq_true', decide_eq_false_iff_not, not_not] at hin ⊢
  exact h hin

/-- What resolves in a scope resolves in every larger one. -/
theorem check_mono {scope scope' : Scope} (h : scope.names ⊆ scope'.names) {decl : Decl}
    (hnone : scope.check decl = .ok none) : scope'.check decl = .ok none := by
  cases decl with
  | union union =>
    obtain ⟨bound, hbound, hmade⟩ := exists_of_bind_eq_ok hnone
    have htags := List.findSome?_eq_none_iff.mp (Except.ok.inj hmade)
    rw [check, hbound]
    refine congrArg Except.ok (List.findSome?_eq_none_iff.mpr fun tag htag => ?_)
    obtain ⟨hnamed, hvars⟩ := Option.or_eq_none_iff.mp (htags tag htag)
    exact Option.or_eq_none_iff.mpr ⟨checkNamed_mono h hnamed, hvars⟩
  | function equation | const equation =>
    exact congrArg Except.ok (checkNamed_mono h (Except.ok.inj hnone))
  | unknown node => cases hnone

theorem names_ofDecls_append (decls decls' : List Decl) :
    (ofDecls decls).names ⊆ (ofDecls (decls ++ decls')).names ∧
      (ofDecls decls').names ⊆ (ofDecls (decls ++ decls')).names := by
  simp only [ofDecls, List.flatMap_append]
  refine ⟨fun name hname => ?_, fun name hname => ?_⟩
  · rw [← List.append_assoc]
    exact List.mem_append_left _ hname
  · rcases List.mem_append.mp hname with hbuiltin | hdeclared
    · exact List.mem_append_left _ hbuiltin
    · exact List.mem_append_right _ (List.mem_append_right _ hdeclared)

end Scope

/-! ## Programs -/

namespace Program

open Block

theorem body_stacked (first second : String) :
    (ofText (Text.stacked first second)).body = (ofText first).body ++ (ofText second).body := by
  rw [body_eq, body_eq, body_eq, blocks_stacked, List.filterMap_append, List.filterMap_map]
  refine congrArg _ (List.filterMap_congr fun block _ => ?_)
  show (block.moved (Text.room first)).read.toOption = _
  rw [read_moved]
  cases block.read <;> rfl

/-- A block that cannot be read is reported with its diagnostic, and with nothing else. -/
theorem report_mem_errors_of_unread {text : String} {block : Block}
    (hblock : block ∈ Block.ofText text) {d : Diagnostic} (hread : block.read = .error d)
    (message : String) : block.report message ∈ (ofText text).errors ↔ message = d.message := by
  rw [report_mem_errors_iff hblock, problem?, hread]
  exact ⟨fun h => (Option.some.inj h).symm, fun h => congrArg some h.symm⟩

/-- A block whose declaration resolves is not reported. -/
theorem report_not_mem_errors_of_resolved {text : String} {block : Block}
    (hblock : block ∈ Block.ofText text) {decl : Decl} (hread : block.read = .ok decl)
    (hcheck : (Scope.ofDecls (ofText text).body).check decl = .ok none) (message : String) :
    block.report message ∉ (ofText text).errors := by
  rw [report_mem_errors_iff hblock, problem?, hread]
  dsimp only
  rw [Scope.issue?, hcheck]
  intro hreport
  cases hreport

/-- Two texts with a blank line between them have the declarations of both. A block of either text
that cannot be read keeps its only diagnostic, moved down by the lines above if it stands in the
second text; a declaration that resolves in its own text is not reported. -/
theorem ofText_stacked (first second : String) :
    (ofText (Text.stacked first second)).body = (ofText first).body ++ (ofText second).body ∧
    (∀ block ∈ Block.ofText first, ∀ d, block.read = .error d → ∀ message,
      (block.report message ∈ (ofText first).errors ↔ message = d.message) ∧
      (block.report message ∈ (ofText (Text.stacked first second)).errors ↔
        message = d.message)) ∧
    (∀ block ∈ Block.ofText second, ∀ d, block.read = .error d → ∀ message,
      (block.report message ∈ (ofText second).errors ↔ message = d.message) ∧
      ((block.moved (Text.room first)).report message ∈
          (ofText (Text.stacked first second)).errors ↔
        message = (d.moved (Text.room first)).message)) ∧
    (∀ block ∈ Block.ofText first, ∀ decl, block.read = .ok decl →
      (Scope.ofDecls (ofText first).body).check decl = .ok none → ∀ message,
        block.report message ∉ (ofText (Text.stacked first second)).errors) ∧
    (∀ block ∈ Block.ofText second, ∀ decl, block.read = .ok decl →
      (Scope.ofDecls (ofText second).body).check decl = .ok none → ∀ message,
        (block.moved (Text.room first)).report message ∉
          (ofText (Text.stacked first second)).errors) := by
  have hbody := body_stacked first second
  have habove : ∀ block ∈ Block.ofText first, block ∈ Block.ofText (Text.stacked first second) := by
    intro block hblock
    rw [blocks_stacked]
    exact List.mem_append_left _ hblock
  have hbelow : ∀ block ∈ Block.ofText second,
      block.moved (Text.room first) ∈ Block.ofText (Text.stacked first second) := by
    intro block hblock
    rw [blocks_stacked]
    exact List.mem_append_right _ (List.mem_map_of_mem hblock)
  obtain ⟨hscope, hscope'⟩ := Scope.names_ofDecls_append (ofText first).body (ofText second).body
  rw [← hbody] at hscope hscope'
  refine ⟨hbody, ?_, ?_, ?_, ?_⟩
  · intro block hblock d hread message
    exact ⟨report_mem_errors_of_unread hblock hread message,
      report_mem_errors_of_unread (habove block hblock) hread message⟩
  · intro block hblock d hread message
    have hmoved : (block.moved (Text.room first)).read = .error (d.moved (Text.room first)) := by
      rw [read_moved, hread]
      rfl
    exact ⟨report_mem_errors_of_unread hblock hread message,
      report_mem_errors_of_unread (hbelow block hblock) hmoved message⟩
  · intro block hblock decl hread hcheck message
    exact report_not_mem_errors_of_resolved (habove block hblock) hread
      (Scope.check_mono hscope hcheck) message
  · intro block hblock decl hread hcheck message
    have hmoved : (block.moved (Text.room first)).read = .ok decl := by
      rw [read_moved, hread]
      rfl
    exact report_not_mem_errors_of_resolved (hbelow block hblock) hmoved
      (Scope.check_mono hscope' hcheck) message

/-- The first text ends inside a parenthesis; the diagnostic of the second only moves. -/
theorem ofText_stacked_open_paren :
    "Error on lines 0 - 1\nexpected expression, got ')' at line 1 col 5:\n```\ny = )\n```" ∈
        (ofText "y = )").errors ∧
      "Error on lines 2 - 3\nexpected expression, got ')' at line 3 col 5:\n```\ny = )\n```" ∈
        (ofText (Text.stacked "x = (" "y = )")).errors := by
  obtain ⟨_, _, hsecond, _⟩ := ofText_stacked "x = (" "y = )"
  have hreport := hsecond ⟨some .const, 0, ["y = )"]⟩ (by decide +kernel)
    ⟨.expression, .expectedExpr (some (.symbol .closeParen)), ⟨1, 5⟩⟩ (by decide +kernel)
  exact ⟨(hreport "expected expression, got ')' at line 1 col 5").1.mpr (by decide +kernel),
    (hreport "expected expression, got ')' at line 3 col 5").2.mpr (by decide +kernel)⟩

end Program

end Polyglot
