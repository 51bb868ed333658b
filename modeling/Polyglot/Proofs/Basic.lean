import Mathlib

/-!
Facts about lists, texts and failing steps that say nothing of the language: where a stretch of one
class ends, what joined texts keep, and what is known of a sequence of steps that succeeded.
-/

namespace List

/-- A stretch of one class ends at the latest where an item of none begins. -/
theorem takeWhile_append_of_head {α : Type} {p : α → Bool} {rest : List α}
    (hrest : ∀ a ∈ rest.head?, p a = false) (items : List α) :
    (items ++ rest).takeWhile p = items.takeWhile p ∧
      (items ++ rest).dropWhile p = items.dropWhile p ++ rest := by
  induction items with
  | nil =>
    cases rest with
    | nil => exact ⟨rfl, rfl⟩
    | cons a rest =>
      have ha : ¬ p a = true := by simp [hrest a rfl]
      exact ⟨takeWhile_cons_of_neg ha, dropWhile_cons_of_neg ha⟩
  | cons a items ih =>
    rw [cons_append]
    by_cases ha : p a = true
    · rw [takeWhile_cons_of_pos ha, takeWhile_cons_of_pos ha, dropWhile_cons_of_pos ha,
        dropWhile_cons_of_pos ha, ih.1, ih.2]
      exact ⟨rfl, rfl⟩
    · rw [takeWhile_cons_of_neg ha, takeWhile_cons_of_neg ha, dropWhile_cons_of_neg ha,
        dropWhile_cons_of_neg ha]
      exact ⟨rfl, rfl⟩

theorem takeWhile_of_head {α : Type} {p : α → Bool} {items rest : List α}
    (hall : ∀ a ∈ items, p a = true) (hrest : ∀ a ∈ rest.head?, p a = false) :
    (items ++ rest).takeWhile p = items ∧ (items ++ rest).dropWhile p = rest := by
  obtain ⟨htake, hdrop⟩ := takeWhile_append_of_head hrest items
  rw [htake, hdrop, takeWhile_eq_self_iff.mpr hall, dropWhile_eq_nil_iff.mpr hall]
  exact ⟨rfl, rfl⟩

/-- A stretch of one class reaches no further than all items of the class in front. -/
theorem isPrefix_takeWhile {α : Type} {p : α → Bool} {part items : List α}
    (hall : ∀ a ∈ part, p a = true) : part <+: items.takeWhile p ↔ part <+: items := by
  constructor
  · exact fun h => h.trans (List.takeWhile_prefix p)
  · rintro ⟨rest, rfl⟩
    rw [takeWhile_append_of_pos hall]
    exact prefix_append part _

theorem intercalate_nil_left {α : Type} (parts : List (List α)) :
    ([] : List α).intercalate parts = parts.flatten := by
  induction parts with
  | nil => rfl
  | cons part parts ih =>
    cases parts with
    | nil => simp
    | cons next parts => rw [intercalate_cons_cons, ih, append_nil]; rfl

theorem intercalate_eq_flatMap {α β : Type} (separator : β) (f : α → List β) (first : α)
    (rest : List α) :
    [separator].intercalate ((first :: rest).map f) =
      f first ++ rest.flatMap fun a => separator :: f a := by
  induction rest generalizing first with
  | nil => simp
  | cons second rest ih =>
    rw [map_cons, map_cons, intercalate_cons_cons, ← map_cons, ih]
    simp

theorem filterMap_eq_self {α : Type} {f : α → Option α} {items : List α} :
    items.filterMap f = items ↔ ∀ a ∈ items, f a = some a := by
  constructor
  · intro h
    induction items with
    | nil => exact fun a ha => absurd ha not_mem_nil
    | cons a items ih =>
      rw [filterMap_cons] at h
      cases hf : f a with
      | none =>
        -- One item is missing, and none can make up for it.
        have hlength := length_filterMap_le f items
        rw [hf] at h
        rw [show items.filterMap f = a :: items from h, length_cons] at hlength
        exact absurd hlength (Nat.not_succ_le_self _)
      | some b =>
        rw [hf] at h
        obtain ⟨rfl, hrest⟩ := cons.inj h
        exact forall_mem_cons.mpr ⟨hf, ih hrest⟩
  · intro h
    rw [filterMap_congr h, filterMap_some]

theorem findSome?_cons_or {α β : Type} (f : α → Option β) (a : α) (items : List α) :
    (a :: items).findSome? f = (f a).or (items.findSome? f) := by
  rw [findSome?_cons]
  cases f a <;> rfl

/-- In a list that grows strictly by a key, the key tells the items apart. -/
theorem eq_of_key_eq {α : Type} {key : α → Int} {items : List α}
    (h : items.Pairwise fun a b => key a < key b) {a b : α} (ha : a ∈ items) (hb : b ∈ items)
    (heq : key a = key b) : a = b := by
  have hnodup : (items.map key).Nodup := h.map key fun _ _ hlt => Int.ne_of_lt hlt
  exact inj_on_of_nodup_map hnodup ha hb heq

/-- Without duplicates the elements are in the order of their first occurrences: of two of them, a
search for either finds the left one. -/
theorem pairwise_eraseDups {α : Type} [BEq α] [LawfulBEq α] (items : List α) :
    items.eraseDups.Pairwise fun a b =>
      a ≠ b ∧ items.find? (fun item => item == a || item == b) = some a := by
  match items with
  | [] => exact .nil
  | first :: rest =>
    have hne {item : α} (hitem : item ∈ (rest.filter fun item => !item == first).eraseDups) :
        (first == item) = false := by
      have hkept := (mem_filter.mp (mem_eraseDups.mp hitem)).2
      rw [Bool.not_eq_true', beq_eq_false_iff_ne] at hkept
      exact beq_eq_false_iff_ne.mpr hkept.symm
    rw [eraseDups_cons, pairwise_cons]
    refine ⟨fun b hb => ⟨beq_eq_false_iff_ne.mp (hne hb), by simp⟩, ?_⟩
    refine (pairwise_eraseDups (rest.filter fun item => !item == first)).imp_of_mem ?_
    rintro a b ha hb ⟨hab, hfound⟩
    refine ⟨hab, ?_⟩
    rw [find?_cons_of_neg (by simp [hne ha, hne hb]), ← hfound, find?_filter]
    congr 1
    funext item
    -- what is searched for is none of what was filtered out
    by_cases hitem : item = first
    · subst hitem
      simp [hne ha, hne hb]
    · simp [hitem]
termination_by items.length
decreasing_by exact Nat.lt_succ_of_le (length_filter_le _ _)

/-- Related lists have related last elements. -/
theorem exists_concat_of_forall₂ {α β : Type} {R : α → β → Prop} {as : List α} {bs : List β}
    (h : Forall₂ R as bs) (hne : as ≠ []) :
    ∃ front a front' b, as = front ++ [a] ∧ bs = front' ++ [b] ∧
      Forall₂ R front front' ∧ R a b := by
  induction h with
  | nil => exact absurd rfl hne
  | @cons a b as bs hab hrest ih =>
    cases as with
    | nil =>
      cases hrest
      exact ⟨[], a, [], b, rfl, rfl, .nil, hab⟩
    | cons a' as =>
      obtain ⟨front, last, front', last', has, rfl, hfront, hlast⟩ := ih (cons_ne_nil _ _)
      rw [has]
      exact ⟨a :: front, last, b :: front', last', rfl, rfl, .cons hab hfront, hlast⟩

theorem flatMap_flatten_of_forall₂ {α β : Type} {f : α → List β} {rows : List (List α)}
    {found : List (List β)} (h : Forall₂ (fun row part => row.flatMap f = part) rows found) :
    rows.flatten.flatMap f = found.flatten := by
  induction h with
  | nil => rfl
  | cons hrow _ ih => rw [flatten_cons, flatMap_append, hrow, ih, flatten_cons]

end List

namespace Char

theorem isUpper_of_isDigit {c : Char} (h : c.isDigit = true) : c.isUpper = false := by
  simp only [Char.isDigit, Bool.and_eq_true, decide_eq_true_eq, UInt32.le_iff_toNat_le] at h
  simp only [Char.isUpper, decide_eq_false_iff_not, UInt32.le_iff_toNat_le]
  have hnine : '9'.val.toNat < 'A'.val.toNat := by decide
  omega

end Char

namespace Int

theorem not_mem_space_toString (n : Int) : ' ' ∉ (toString n).toList := by
  have hdigits : ∀ k : Nat, ' ' ∉ k.repr.toList := by
    intro k hspace
    rw [Nat.toList_repr] at hspace
    have hdigit := Nat.isDigit_of_mem_toDigits (by decide) (by decide) hspace
    cases hdigit
  rw [toString_eq_repr, repr_eq_if]
  split
  · exact hdigits _
  · rw [String.toList_append, List.mem_append]
    rintro (hsign | hspace)
    · cases hsign with
      | tail _ hnone => cases hnone
    · exact hdigits _ hspace

/-- A number ends at the blank behind it. -/
theorem eq_of_toString_append_eq {m n : Int} {rest rest' : String}
    (h : toString m ++ (" " ++ rest) = toString n ++ (" " ++ rest')) : m = n := by
  have hword : ∀ (k : Int) (rest : String),
      (toString k ++ (" " ++ rest)).toList.takeWhile (· != ' ') = (toString k).toList := by
    intro k rest
    rw [String.toList_append, String.toList_append, List.takeWhile_append_of_pos]
    · exact List.append_nil _
    · intro c hc
      rw [bne_iff_ne]
      rintro rfl
      exact not_mem_space_toString k hc
  have hwords := congrArg (fun text => text.toList.takeWhile (· != ' ')) h
  simp only [hword] at hwords
  rw [← Int.repr_inj, ← Int.toString_eq_repr, ← Int.toString_eq_repr]
  exact String.toList_injective hwords

end Int

namespace String

theorem append_ne_empty {text text' : String} (h : text' ≠ "") : text ++ text' ≠ "" :=
  fun hempty => h (append_eq_empty_iff.mp hempty).2

/-- What one text behind another keeps, joined texts keep. -/
theorem intercalate_of_append {P : String → Prop}
    (happend : ∀ {text text'}, P text → P text' → P (text ++ text')) {separator : String}
    (hseparator : P separator) {texts : List String} (hne : texts ≠ [])
    (h : ∀ text ∈ texts, P text) : P (separator.intercalate texts) := by
  induction texts with
  | nil => exact absurd rfl hne
  | cons text texts ih =>
    rw [List.forall_mem_cons] at h
    cases texts with
    | nil =>
      rw [intercalate_singleton]
      exact h.1
    | cons _ _ =>
      rw [intercalate_cons_cons]
      exact happend (happend h.1 hseparator) (ih (List.cons_ne_nil _ _) h.2)

theorem toList_intercalate_space (name : String) (names : List String) :
    (" ".intercalate (name :: names)).toList ++ [' '] =
      (name :: names).flatMap fun name => name.toList ++ [' '] := by
  induction names generalizing name with
  | nil => simp
  | cons second names ih =>
    rw [intercalate_cons_cons, toList_append, toList_append, List.flatMap_cons,
      ← ih, List.append_assoc]
    rfl

end String

namespace Polyglot

/-! ## Steps that can fail -/

variable {ε α β γ : Type} {step : Except ε α} {f : α → Except ε β}

/-- A sequence that succeeds has succeeded step by step. -/
theorem exists_of_bind_eq_ok {b : β} (h : step >>= f = .ok b) :
    ∃ a, step = .ok a ∧ f a = .ok b := by
  cases step with
  | error e => cases h
  | ok a => exact ⟨a, rfl, h⟩

/-- A sequence that fails has failed in its first step or behind it. -/
theorem bind_eq_error {e : ε} (h : step >>= f = .error e) :
    step = .error e ∨ ∃ a, step = .ok a ∧ f a = .error e := by
  cases step with
  | error e' =>
    cases h
    exact .inl rfl
  | ok a => exact .inr ⟨a, rfl, h⟩

theorem exists_of_map_eq_ok {g : α → β} {b : β} (h : step.map g = .ok b) :
    ∃ a, step = .ok a ∧ g a = b := by
  cases step with
  | error e => cases h
  | ok a => exact ⟨a, rfl, Except.ok.inj h⟩

theorem error_of_map_eq_error {g : α → β} {e : ε} (h : step.map g = .error e) :
    step = .error e := by
  cases step with
  | error e' =>
    cases h
    rfl
  | ok a => cases h

theorem exists_ok_bind (h : ∃ a, step = .ok a) (hf : ∀ a, ∃ b, f a = .ok b) :
    ∃ b, step >>= f = .ok b := by
  obtain ⟨a, rfl⟩ := h
  exact hf a

theorem exists_ok_map (h : ∃ a, step = .ok a) (f : α → β) :
    ∃ b, (do let a ← step; return f a) = .ok b :=
  exists_ok_bind h fun a => ⟨f a, rfl⟩

theorem exists_ok_mapM {items : List α} (h : ∀ a ∈ items, ∃ b, f a = .ok b) :
    ∃ bs, items.mapM f = .ok bs := by
  induction items with
  | nil => exact ⟨[], rfl⟩
  | cons a items ih =>
    rw [List.mapM_cons]
    have hrest := ih fun a' ha' => h a' (List.mem_cons_of_mem a ha')
    exact exists_ok_bind (h a List.mem_cons_self) fun b => exists_ok_map hrest (b :: ·)

theorem mapM_eq_ok_of_forall₂ {items : List α} {results : List β}
    (h : List.Forall₂ (fun a b => f a = .ok b) items results) : items.mapM f = .ok results := by
  induction h with
  | nil => rfl
  | cons hab _ ih =>
    rw [List.mapM_cons, hab, ih]
    rfl

theorem mapM_eq_ok {g : α → β} {items : List α} (h : ∀ a ∈ items, f a = .ok (g a)) :
    items.mapM f = .ok (items.map g) :=
  mapM_eq_ok_of_forall₂ (List.forall₂_map_right_iff.mpr (List.forall₂_same.mpr h))

/-- Steps that succeed together, item by item. -/
theorem exists_ok_mapM₂ {R : β → γ → Prop} {g : α → Except ε γ} {items : List α}
    (h : ∀ a ∈ items, ∃ b c, f a = .ok b ∧ g a = .ok c ∧ R b c) :
    ∃ bs cs, items.mapM f = .ok bs ∧ items.mapM g = .ok cs ∧ List.Forall₂ R bs cs := by
  induction items with
  | nil => exact ⟨[], [], rfl, rfl, .nil⟩
  | cons a items ih =>
    obtain ⟨b, c, hb, hc, hbc⟩ := h a List.mem_cons_self
    obtain ⟨bs, cs, hbs, hcs, hrest⟩ := ih fun a' ha' => h a' (List.mem_cons_of_mem a ha')
    refine ⟨b :: bs, c :: cs, ?_, ?_, .cons hbc hrest⟩
    · rw [List.mapM_cons, hb, hbs]
      rfl
    · rw [List.mapM_cons, hc, hcs]
      rfl

theorem length_of_mapM {items : List α} {results : List β} (h : items.mapM f = .ok results) :
    results.length = items.length := by
  induction items generalizing results with
  | nil =>
    cases h
    rfl
  | cons a items ih =>
    rw [List.mapM_cons] at h
    obtain ⟨b, _, h⟩ := exists_of_bind_eq_ok h
    obtain ⟨bs, hbs, h⟩ := exists_of_bind_eq_ok h
    cases h
    rw [List.length_cons, List.length_cons, ih hbs]

/-- What is known of the result of a step, if the step succeeds. -/
def IfOk (step : Except ε α) (P : α → Prop) : Prop :=
  ∀ a, step = .ok a → P a

variable {P : α → Prop} {Q : β → Prop}

theorem ifOk_ok {a : α} (h : P a) : IfOk (.ok a : Except ε α) P := by
  rintro _ ⟨⟩
  exact h

theorem ifOk_error (error : ε) : IfOk (.error error : Except ε α) P := by
  rintro _ ⟨⟩

/-- Nothing is asked of the result. -/
theorem ifOk_any (step : Except ε α) : IfOk step fun _ => True :=
  fun _ _ => trivial

theorem IfOk.bind (h : IfOk step P)
    (hf : ∀ a, P a → IfOk (f a) Q) : IfOk (step >>= f) Q := by
  intro b hb
  obtain ⟨a, ha, hfa⟩ := exists_of_bind_eq_ok hb
  exact hf a (h a ha) b hfa

theorem IfOk.map {f : α → β} (h : IfOk step P) (hf : ∀ a, P a → Q (f a)) :
    IfOk (do let a ← step; return f a) Q :=
  h.bind fun a ha => ifOk_ok (hf a ha)

/-- Item by item, with what is expected of each. -/
theorem ifOk_mapM {R : β → γ → Prop} {g : α → γ} {items : List α}
    (h : ∀ a ∈ items, IfOk (f a) (R · (g a))) :
    IfOk (items.mapM f) (List.Forall₂ R · (items.map g)) := by
  induction items with
  | nil => exact ifOk_ok .nil
  | cons a items ih =>
    rw [List.forall_mem_cons] at h
    rw [List.mapM_cons]
    exact h.1.bind fun b hb => (ih h.2).map fun bs hbs => .cons hb hbs

/-- Item by item, with the same expected of all. -/
theorem ifOk_mapM_all {items : List α} (h : ∀ a ∈ items, IfOk (f a) Q) :
    IfOk (items.mapM f) fun bs => ∀ b ∈ bs, Q b := by
  induction items with
  | nil => exact ifOk_ok fun b hb => absurd hb List.not_mem_nil
  | cons a items ih =>
    rw [List.forall_mem_cons] at h
    rw [List.mapM_cons]
    exact h.1.bind fun b hb => (ih h.2).map fun bs hbs => List.forall_mem_cons.mpr ⟨hb, hbs⟩

end Polyglot
