import Mathlib
import Polyglot.Text

/-!
# Cutting a text into lines

Cutting a text and joining lines undo each other: a text is its lines joined (`unlines_lines`), and
lines without a line feed are the lines of what they make (`lines_unlines`). A text is cut from the
left, where its first line ends (`exists_line`), or at any line feed (`lines_newline`).
-/

namespace Polyglot

/-! ## Cutting and joining -/

theorem not_mem_of_mem_splitOn {c : Char} {cs part : List Char} (h : part ∈ cs.splitOn c) :
    c ∉ part := by
  induction cs generalizing part with
  | nil =>
    rw [List.splitOn_nil, List.mem_singleton] at h
    rw [h]
    exact List.not_mem_nil
  | cons d cs ih =>
    rw [List.splitOn_cons_eq_if_modifyHead] at h
    split at h
    · rcases List.mem_cons.mp h with rfl | h
      · exact List.not_mem_nil
      · exact ih h
    · next hd =>
      cases hparts : cs.splitOn c with
      | nil => exact absurd hparts (List.splitOn_ne_nil c cs)
      | cons first parts =>
        rw [hparts] at h ih
        rcases List.mem_cons.mp h with rfl | h
        · rw [List.mem_cons, not_or]
          exact ⟨fun hc => hd (by simp [hc]), ih List.mem_cons_self⟩
        · exact ih (List.mem_cons_of_mem first h)

theorem not_mem_of_mem_lines {text line : String} (h : line ∈ Text.lines text) :
    '\n' ∉ line.toList := by
  obtain ⟨part, hpart, rfl⟩ := List.mem_map.mp h
  rw [String.toList_ofList]
  exact not_mem_of_mem_splitOn hpart

/-- Lines that hold no line feed are the lines of the text they make. -/
theorem lines_unlines {lines : List String} (hne : lines ≠ [])
    (h : ∀ line ∈ lines, '\n' ∉ line.toList) : Text.lines (Text.unlines lines) = lines := by
  have hparts : ∀ part ∈ lines.map String.toList, '\n' ∉ part := by
    intro part hpart
    obtain ⟨line, hline, rfl⟩ := List.mem_map.mp hpart
    exact h line hline
  have hsplit := List.splitOn_intercalate '\n' hparts (by simpa using hne)
  have hfeed : "\n".toList = ['\n'] := rfl
  rw [Text.lines, Text.unlines, String.toList_intercalate, hfeed, hsplit, List.map_map]
  have hid : String.ofList ∘ String.toList = id := by
    funext line
    exact String.ofList_toList
  rw [hid, List.map_id]

theorem unlines_cons {line : String} {lines : List String} (h : lines ≠ []) :
    Text.unlines (line :: lines) = line ++ "\n" ++ Text.unlines lines :=
  String.intercalate_cons_of_ne_nil h

theorem unlines_append {lines lines' : List String} (h : lines ≠ []) (h' : lines' ≠ []) :
    Text.unlines (lines ++ lines') = Text.unlines lines ++ "\n" ++ Text.unlines lines' :=
  String.intercalate_append_of_ne_nil h h'

namespace Text

theorem lines_of_not_mem {cs : List Char} (h : '\n' ∉ cs) :
    lines (String.ofList cs) = [String.ofList cs] := by
  have hone := lines_unlines (List.cons_ne_nil (String.ofList cs) [])
    (List.forall_mem_singleton.mpr (by rwa [String.toList_ofList]))
  rwa [unlines, String.intercalate_singleton] at hone

theorem lines_append_newline {cs : List Char} (h : '\n' ∉ cs) (rest : List Char) :
    lines (String.ofList (cs ++ '\n' :: rest)) =
      String.ofList cs :: lines (String.ofList rest) := by
  have hcut : (cs ++ '\n' :: rest).splitOn '\n' = cs :: rest.splitOn '\n' := by
    refine List.splitOnP_append_cons_of_forall_mem (p := (· == '\n')) (fun c hc => ?_) '\n'
      (beq_self_eq_true _) rest
    exact beq_eq_false_iff_ne.mpr (ne_of_mem_of_not_mem hc h)
  rw [lines, lines, String.toList_ofList, String.toList_ofList, hcut, List.map_cons]

/-- The lines of a text below another. -/
theorem lines_newline (above below : String) :
    lines (above ++ "\n" ++ below) = lines above ++ lines below := by
  have hall : ∀ line ∈ lines above ++ lines below, '\n' ∉ line.toList := by
    intro line hline
    exact (List.mem_append.mp hline).elim not_mem_of_mem_lines not_mem_of_mem_lines
  have hne := List.append_ne_nil_of_left_ne_nil (lines_ne_nil above) (lines below)
  have hcut := lines_unlines hne hall
  rwa [unlines_append (lines_ne_nil above) (lines_ne_nil below), unlines_lines, unlines_lines] at hcut

/-- The lines of joined texts are the lines of the texts. -/
theorem lines_unlines_eq_flatMap {texts : List String} (h : texts ≠ []) :
    lines (unlines texts) = texts.flatMap lines := by
  induction texts with
  | nil => exact absurd rfl h
  | cons first rest ih =>
    cases rest with
    | nil => rw [unlines, String.intercalate_singleton, List.flatMap_singleton]
    | cons second rest =>
      have hne : second :: rest ≠ [] := List.cons_ne_nil _ _
      rw [unlines_cons hne, lines_newline, ih hne]
      rfl

end Text

/-! ## The first line -/

/-- The characters up to the end of a line or of the text. -/
theorem exists_line (cs : List Char) :
    '\n' ∉ cs ∨ ∃ first rest, cs = first ++ '\n' :: rest ∧ '\n' ∉ first := by
  by_cases h : '\n' ∈ cs
  · exact .inr (List.eq_append_cons_of_mem h)
  · exact .inl h

theorem takeWhile_line {cs : List Char} (h : '\n' ∉ cs) (rest : List Char) :
    (cs ++ rest).takeWhile (· != '\n') = cs ++ rest.takeWhile (· != '\n') ∧
      (cs ++ rest).dropWhile (· != '\n') = rest.dropWhile (· != '\n') := by
  have hall : ∀ c ∈ cs, (c != '\n') = true := fun c hc =>
    bne_iff_ne.mpr (ne_of_mem_of_not_mem hc h)
  exact ⟨List.takeWhile_append_of_pos hall, List.dropWhile_append_of_pos hall⟩

theorem dropWhile_line_last {cs : List Char} (h : '\n' ∉ cs) : cs.dropWhile (· != '\n') = [] := by
  have hall := (takeWhile_line h []).2
  rwa [List.append_nil] at hall

theorem not_mem_takeWhile_line (cs : List Char) : '\n' ∉ cs.takeWhile (· != '\n') := fun h =>
  absurd (List.all_eq_true.mp List.all_takeWhile _ h) (by simp)

namespace Text

theorem below_eq (line text : String) :
    line ++ "\n" ++ text = String.ofList (line.toList ++ '\n' :: text.toList) := by
  rw [← String.toList_inj]
  simp

/-- The lines of a text below a line. -/
theorem lines_below {line : String} (h : '\n' ∉ line.toList) (text : String) :
    lines (line ++ "\n" ++ text) = line :: lines text := by
  rw [below_eq, lines_append_newline h, String.ofList_toList, String.ofList_toList]

/-- The lines of a text behind part of a line. -/
theorem lines_append {part : List Char} (h : '\n' ∉ part) (rest : List Char) :
    ∃ first more, lines (String.ofList rest) = String.ofList first :: more ∧
      lines (String.ofList (part ++ rest)) = String.ofList (part ++ first) :: more := by
  rcases exists_line rest with hlast | ⟨first, behind, rfl, hfirst⟩
  · refine ⟨rest, [], lines_of_not_mem hlast, lines_of_not_mem ?_⟩
    simp [h, hlast]
  · refine ⟨first, lines (String.ofList behind), lines_append_newline hfirst _, ?_⟩
    rw [← List.append_assoc, lines_append_newline (by simp [h, hfirst])]

end Text

end Polyglot
