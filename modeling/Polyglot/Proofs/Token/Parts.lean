import Polyglot.Proofs.Token.Stream

/-!
# Scanning in parts

Before white space a text can be cut: what stands before the cut is scanned without a look at what
stands behind it, as long as it holds no quote and no hyphen, which could open a literal or a
comment. What stands behind the cut is scanned to the same lexemes wherever it stands.

Results:
1. `scanFrom_append`: a text is scanned part by part.
2. `scanFrom_elsewhere`: the lexemes of a text do not depend on the place where it starts.
-/

namespace Polyglot

/-! ## Parts of a line -/

/-- Characters that cannot open a literal or a comment. -/
def IsPlainPart (part : List Char) : Prop :=
  '"' ∉ part ∧ '-' ∉ part

theorem IsPlainPart.of_subset {part part' : List Char} (h : IsPlainPart part)
    (hsubset : part' ⊆ part) : IsPlainPart part' :=
  ⟨fun hmem => h.1 (hsubset hmem), fun hmem => h.2 (hsubset hmem)⟩

/-- A text is scanned part by part, if white space stands behind the first part. -/
theorem scanFrom_append {part rest : List Char} (hpart : IsPlainPart part) (hline : '\n' ∉ part)
    (hrest : SpaceAhead rest) (line : Int) (col : Nat) :
    scanFrom line col (part ++ rest) = (do
      let found ← scanFrom line col part
      prepend found.tokens (scanFrom line (col + part.length) rest)) := by
  fun_induction scanFrom line col part with
  | case1 line col =>
    show scanFrom line col rest = prepend [] (scanFrom line col rest)
    cases scanFrom line col rest <;> rfl
  | case2 line col cs => exact absurd List.mem_cons_self hline
  | case3 line col c cs _ hgap ih =>
    have hmore : IsPlainPart cs := hpart.of_subset (List.subset_cons_self c cs)
    have hlater : '\n' ∉ cs := fun hmem => hline (List.mem_cons_of_mem c hmem)
    rw [List.cons_append, scanFrom_gap line col hgap, ih hmore hlater, List.length_cons,
      Nat.add_right_comm, Nat.add_assoc]
  | case4 line col c cs _ hgap hcomment => exact absurd (hcomment.1 ▸ List.mem_cons_self) hpart.2
  | case5 line col c cs hc hgap hcomment problem offset hread =>
    have hquote : c ≠ '"' := fun heq => hpart.1 (heq ▸ List.mem_cons_self)
    have hhyphen : ¬ (c = '-' ∧ (cs ++ rest).head? = some '-') :=
      fun h => hpart.2 (h.1 ▸ List.mem_cons_self)
    rw [List.cons_append, scanFrom, if_neg hc, if_neg hgap, if_neg hhyphen,
      readLexeme_append hquote hrest, hread]
    rfl
  | case6 line col c cs hc hgap hcomment l hread width ih =>
    have hquote : c ≠ '"' := fun heq => hpart.1 (heq ▸ List.mem_cons_self)
    have hhyphen : ¬ (c = '-' ∧ (cs ++ rest).head? = some '-') :=
      fun h => hpart.2 (h.1 ▸ List.mem_cons_self)
    have hspace : isSpace c = false := isSpace_eq_false.mpr ⟨by simpa using hgap, hc⟩
    obtain ⟨part, behind, hspelling, hwidth, rfl⟩ := readLexeme_spelling hread
    have hmore : IsPlainPart behind := hpart.of_subset (by simp)
    have hlater : '\n' ∉ behind := fun hmem => hline (by simp [hmem])
    have hcol : col + (part.length + 1) + behind.length =
        col + (c :: (part ++ behind)).length := by
      rw [List.length_cons, List.length_append, Nat.add_assoc, Nat.add_right_comm part.length]
    have hread' : readLexeme c (part ++ (behind ++ rest)) = .ok l := by
      rw [← List.append_assoc, readLexeme_append hquote hrest, hread]
    rw [show width = part.length + 1 from hwidth, Nat.add_sub_cancel, List.drop_left] at ih ⊢
    rw [List.append_assoc] at hhyphen
    rw [List.cons_append, List.append_assoc, scanFrom_read hspace hhyphen hread' hspelling,
      ih hmore hlater, hcol]
    cases scanFrom line (col + (part.length + 1)) behind with
    | error d => rfl
    | ok found =>
      cases scanFrom line (col + (c :: (part ++ behind)).length) rest <;> rfl

/-! ## Texts at other places -/

/-- The lexemes of a text do not depend on the place where it starts. -/
theorem scanFrom_elsewhere {line : Int} {col : Nat} {cs : List Char} {found : Scan}
    (h : scanFrom line col cs = .ok found) (line' : Int) (col' : Nat) :
    ∃ found', scanFrom line' col' cs = .ok found' ∧
      found'.tokens.map Token.lexeme = found.tokens.map Token.lexeme := by
  fun_induction scanFrom line col cs generalizing found line' col' with
  | case1 line col =>
    cases h
    rw [scanFrom]
    exact ⟨_, rfl, rfl⟩
  | case2 line col cs ih =>
    rw [scanFrom_newline]
    exact ih h (line' + 1) 1
  | case3 line col c cs _ hgap ih =>
    rw [scanFrom_gap line' col' hgap]
    exact ih h line' (col' + 1)
  | case4 line col c cs hc hgap hcomment ih =>
    rw [scanFrom, if_neg hc, if_neg hgap, if_pos hcomment]
    exact ih h line' col'
  | case5 => cases h
  | case6 line col c cs hc hgap hcomment l hread width =>
    rename_i ih
    obtain ⟨more, hmore, rfl⟩ := exists_of_map_eq_ok h
    obtain ⟨more', hmore', hlexemes⟩ := ih hmore line' (col' + width)
    refine ⟨Scan.cons ⟨l, ⟨line', col'⟩⟩ more', ?_, ?_⟩
    · rw [scanFrom, if_neg hc, if_neg hgap, if_neg hcomment, hread]
      exact congrArg (Except.map (Scan.cons _)) hmore'
    · rw [Scan.cons, Scan.cons, List.map_cons, List.map_cons, hlexemes]

end Polyglot
