import Polyglot.Proofs.Block.Layout
import Polyglot.Proofs.Token.Below

/-!
# Texts further to the right

There are two ways to move a text to the right. A text that starts inside a line keeps its first
line in place, and the others move (`hang`). A text that stands on lines of its own moves as a
whole, and only its empty lines stay empty (`inset`). Where no line is empty the two differ by the
blanks before the first line (`Solid.inset_eq`).
-/

namespace Polyglot.Text

/-! ## Single lines -/

/-- A text without a line feed. -/
def IsLine (text : String) : Prop :=
  '\n' ∉ text.toList

instance (text : String) : Decidable (IsLine text) :=
  inferInstanceAs (Decidable ('\n' ∉ text.toList))

theorem IsLine.append {text text' : String} (h : IsLine text) (h' : IsLine text') :
    IsLine (text ++ text') := by
  rw [IsLine, String.toList_append, List.mem_append, not_or]
  exact ⟨h, h'⟩

theorem isLine_intercalate {separator : String} (hseparator : IsLine separator)
    {texts : List String} (h : ∀ text ∈ texts, IsLine text) :
    IsLine (separator.intercalate texts) := by
  cases texts with
  | nil => exact List.not_mem_nil
  | cons _ _ => exact String.intercalate_of_append IsLine.append hseparator (List.cons_ne_nil _ _) h

theorem isLine_name {name : String} (h : isPlainName name) : IsLine name :=
  not_mem_of_isNamePart (isNamePart_of_isPlainName h).2

theorem lines_of_isLine {text : String} (h : IsLine text) : lines text = [text] := by
  have hcut := lines_unlines (List.cons_ne_nil text []) (List.forall_mem_singleton.mpr h)
  rwa [unlines, String.intercalate_singleton] at hcut

/-! ## Behind every line feed -/

def blanks (count : Nat) : String :=
  String.ofList (List.replicate count ' ')

theorem isLine_blanks (count : Nat) : IsLine (blanks count) := by
  rw [IsLine, blanks, String.toList_ofList]
  exact fun hmem => absurd (List.eq_of_mem_replicate hmem) (by decide)

theorem blanks_add (count count' : Nat) :
    blanks (count + count') = blanks count ++ blanks count' := by
  rw [blanks, ← List.replicate_append_replicate, String.ofList_append]
  rfl

/-- The text with blanks behind every line feed. -/
def hang (count : Nat) (text : String) : String :=
  String.ofList (text.toList.flatMap fun c => if c = '\n' then c :: (blanks count).toList else [c])

theorem hang_zero (text : String) : hang 0 text = text := by
  have hsame : ∀ c : Char, (if c = '\n' then c :: (blanks 0).toList else [c]) = [c] := by
    intro c
    split <;> rfl
  simp only [hang, hsame, List.flatMap_singleton', String.ofList_toList]

theorem hang_append (count : Nat) (text text' : String) :
    hang count (text ++ text') = hang count text ++ hang count text' := by
  rw [hang, String.toList_append, List.flatMap_append, String.ofList_append]
  rfl

theorem hang_newline (count : Nat) : hang count "\n" = "\n" ++ blanks count := by
  apply String.toList_injective
  rw [hang, String.toList_ofList, String.toList_append]
  exact List.append_nil _

theorem hang_of_isLine (count : Nat) {text : String} (h : IsLine text) :
    hang count text = text := by
  have hsame : ∀ c ∈ text.toList,
      (if c = '\n' then c :: (blanks count).toList else [c]) = [c] := by
    intro c hc
    rw [if_neg]
    rintro rfl
    exact h hc
  rw [hang, List.flatMap_congr hsame, List.flatMap_singleton', String.ofList_toList]

theorem hang_intercalate (count : Nat) {separator : String} (h : IsLine separator)
    (texts : List String) :
    hang count (separator.intercalate texts) = separator.intercalate (texts.map (hang count)) := by
  induction texts with
  | nil => rfl
  | cons text texts ih =>
    cases texts with
    | nil => rw [List.map_singleton, String.intercalate_singleton, String.intercalate_singleton]
    | cons _ _ =>
      rw [List.map_cons, List.map_cons, String.intercalate_cons_cons, String.intercalate_cons_cons,
        hang_append, hang_append, hang_of_isLine count h, ih, List.map_cons]

/-! ## Before every line -/

/-- The text with blanks before every line that is not empty. -/
def inset (count : Nat) (text : String) : String :=
  unlines ((lines text).map fun line => if line = "" then line else blanks count ++ line)

theorem inset_zero (text : String) : inset 0 text = text := by
  have hsame : ∀ line : String, (if line = "" then line else blanks 0 ++ line) = line := by
    intro line
    split
    · rfl
    · exact String.empty_append
  simp only [inset, hsame, List.map_id', unlines_lines]

theorem map_lines_ne_nil (text : String) (f : String → String) : (lines text).map f ≠ [] :=
  fun hnil => lines_ne_nil text (List.map_eq_nil_iff.mp hnil)

theorem inset_newline (count : Nat) (above below : String) :
    inset count (above ++ "\n" ++ below) = inset count above ++ "\n" ++ inset count below := by
  rw [inset, lines_newline, List.map_append,
    unlines_append (map_lines_ne_nil above _) (map_lines_ne_nil below _)]
  rfl

theorem inset_of_isLine (count : Nat) {text : String} (h : IsLine text) (hne : text ≠ "") :
    inset count text = blanks count ++ text := by
  rw [inset, lines_of_isLine h, List.map_singleton, if_neg hne, unlines,
    String.intercalate_singleton]

theorem lines_inset (count : Nat) (text : String) :
    lines (inset count text) =
      (lines text).map fun line => if line = "" then line else blanks count ++ line := by
  refine lines_unlines (map_lines_ne_nil text _) fun line hline => ?_
  obtain ⟨old, hold, rfl⟩ := List.mem_map.mp hline
  have hfeed := not_mem_of_mem_lines hold
  split
  · exact hfeed
  · exact (isLine_blanks count).append hfeed

/-- An empty line stays empty, and blanks before blanks are blanks. -/
theorem inset_inset (count count' : Nat) (text : String) :
    inset count (inset count' text) = inset (count + count') text := by
  rw [inset, lines_inset, List.map_map, inset]
  refine congrArg unlines (List.map_congr_left fun line _ => ?_)
  by_cases hline : line = ""
  · simp only [Function.comp_apply, if_pos hline]
  · have hmoved : blanks count' ++ line ≠ "" := String.append_ne_empty hline
    simp only [Function.comp_apply, if_neg hline, if_neg hmoved, blanks_add, String.append_assoc]

/-! ## Texts without empty lines -/

/-- A text in which no line is empty. -/
inductive Solid : String → Prop
  | line {text : String} : IsLine text → text ≠ "" → Solid text
  | newline {above below : String} : Solid above → Solid below → Solid (above ++ "\n" ++ below)

theorem Solid.inset_eq {text : String} (h : Solid text) (count : Nat) :
    inset count text = blanks count ++ hang count text := by
  induction h with
  | line hline hne => rw [inset_of_isLine count hline hne, hang_of_isLine count hline]
  | newline _ _ habove hbelow =>
    rw [inset_newline, hang_append, hang_append, habove, hbelow, hang_newline]
    simp only [String.append_assoc]

/-- Below the line that it starts in, a text moves as one on lines of its own. -/
theorem Solid.hang_below {line below : String} (h : Solid below) (hline : IsLine line)
    (count : Nat) : hang count (line ++ "\n" ++ below) = line ++ "\n" ++ inset count below := by
  rw [hang_append, hang_append, hang_of_isLine count hline, hang_newline, h.inset_eq]
  simp only [String.append_assoc]

theorem Solid.inset {text : String} (h : Solid text) (count : Nat) : Solid (inset count text) := by
  induction h with
  | line hline hne =>
    rw [inset_of_isLine count hline hne]
    exact .line ((isLine_blanks count).append hline) (String.append_ne_empty hne)
  | newline _ _ habove hbelow =>
    rw [inset_newline]
    exact .newline habove hbelow

/-- The last line of the one and the first line of the other become one line. -/
theorem Solid.append {text text' : String} (h : Solid text) (h' : Solid text') :
    Solid (text ++ text') := by
  induction h with
  | line hline hne =>
    induction h' with
    | line hline' hne' => exact .line (hline.append hline') (String.append_ne_empty hne')
    | newline _ hbelow habove _ =>
      rw [← String.append_assoc, ← String.append_assoc]
      exact .newline habove hbelow
  | newline habove _ _ hbelow =>
    rw [String.append_assoc]
    exact .newline habove hbelow

end Polyglot.Text
