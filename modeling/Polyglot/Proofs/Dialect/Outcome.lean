import Polyglot.Dialect.Decls

/-!
# The outcome of a rendering

Rendering threads the indent counter. A part that succeeds leaves the counter as it was, so no part
depends on what was rendered before it, and what a part gives at an indent is all there is to say of
it. Only a failure is told apart by where it leaves the counter.

Results:
1. `Balanced` and its rules: which steps leave the counter as they found it.
2. `outcome_bind`, `outcome_mapM`, `outcome_indented`: what a sequence of parts gives, from what
   each of them gives.
-/

namespace Polyglot

namespace Render

variable {α β : Type}

/-- A failure, and where it leaves the indent counter. -/
structure Stop where
  error : RenderError
  after : Int

/-- What a rendering gives at an indent, and where it leaves the counter if it fails. -/
def outcome (part : Render α) (count : Int) : Except Stop α :=
  match part count with
  | .ok value _ => .ok value
  | .error error after => .error ⟨error, after⟩

/-- A step that does not look at the counter, at an indent. -/
def stopAt (count : Int) (step : Except RenderError α) : Except Stop α :=
  step.mapError (⟨·, count⟩)

/-- Success leaves the indent counter as it was, and failure leaves it no lower. -/
structure Balanced (part : Render α) : Prop where
  ok : ∀ {count after : Int} {value : α}, part count = .ok value after → after = count
  error : ∀ {count after : Int} {error : RenderError},
    part count = .error error after → count ≤ after

theorem outcome_of_ok {part : Render α} {count after : Int} {value : α}
    (h : part count = .ok value after) : part.outcome count = .ok value := by
  rw [outcome, h]

theorem Balanced.eq_ok {part : Render α} (hpart : part.Balanced) {count : Int} {value : α}
    (h : part.outcome count = .ok value) : part count = .ok value count := by
  rw [outcome] at h
  split at h
  · next found after hfound =>
    cases h
    rw [hfound, hpart.ok hfound]
  · cases h

theorem eq_error_of_outcome {part : Render α} {count : Int} {stop : Stop}
    (h : part.outcome count = .error stop) : part count = .error stop.error stop.after := by
  rw [outcome] at h
  split at h
  · cases h
  · next hfound =>
    cases h
    exact hfound

theorem Balanced.eq_of_outcome_eq {part part' : Render α} (hpart : part.Balanced)
    (hpart' : part'.Balanced) {count : Int} (h : part.outcome count = part'.outcome count) :
    part count = part' count := by
  cases hfound : part'.outcome count with
  | ok value => rw [hpart.eq_ok (h.trans hfound), hpart'.eq_ok hfound]
  | error stop => rw [eq_error_of_outcome (h.trans hfound), eq_error_of_outcome hfound]

theorem balanced_pure (value : α) : (pure value : Render α).Balanced := by
  constructor
  · rintro _ _ _ ⟨⟩
    rfl
  · rintro _ _ _ ⟨⟩

theorem balanced_throw (error : RenderError) : (throw error : Render α).Balanced := by
  constructor
  · rintro _ _ _ ⟨⟩
  · rintro _ _ _ ⟨⟩
    exact Int.le_refl _

theorem Balanced.bind {part : Render α} {f : α → Render β} (h : part.Balanced)
    (hf : ∀ a, (f a).Balanced) : (part >>= f).Balanced := by
  constructor
  · intro count after value hvalue
    simp only [Bind.bind, EStateM.bind] at hvalue
    split at hvalue
    · next a mid ha => exact ((hf a).ok hvalue).trans (h.ok ha)
    · cases hvalue
  · intro count after error herror
    simp only [Bind.bind, EStateM.bind] at herror
    split at herror
    · next a mid ha =>
      obtain rfl := h.ok ha
      exact (hf a).error herror
    · next failed mid hfailed =>
      cases herror
      exact h.error hfailed

theorem Balanced.map {part : Render α} (h : part.Balanced) (f : α → β) :
    (do let a ← part; return f a).Balanced :=
  h.bind fun a => balanced_pure (f a)

theorem balanced_mapM {f : α → Render β} {items : List α} (h : ∀ item ∈ items, (f item).Balanced) :
    (items.mapM f).Balanced := by
  induction items with
  | nil => exact balanced_pure []
  | cons item items ih =>
    rw [List.forall_mem_cons] at h
    rw [List.mapM_cons]
    exact h.1.bind fun value => (ih h.2).map (value :: ·)

theorem balanced_lift (step : Except RenderError α) : (liftM step : Render α).Balanced := by
  cases step with
  | ok value => exact balanced_pure value
  | error error => exact balanced_throw error

theorem balanced_indentation : indentation.Balanced := by
  constructor
  · rintro _ _ _ ⟨⟩
    rfl
  · rintro _ _ _ ⟨⟩

theorem indented_eq (part : Render α) (count : Int) :
    indented part count =
      match part (count + 1) with
      | .ok value after => .ok value (after - 1)
      | .error error after => .error error after := by
  change EStateM.bind part (fun value => do modify (· - 1); return value) (count + 1) = _
  rw [EStateM.bind]
  cases part (count + 1) <;> rfl

/-- The counter is lowered again behind a part that succeeds, and stays raised behind one that
fails. -/
theorem Balanced.indented {part : Render α} (h : part.Balanced) : (indented part).Balanced := by
  constructor
  · intro count after value hvalue
    rw [indented_eq] at hvalue
    split at hvalue
    · next found mid hfound =>
      cases hvalue
      rw [h.ok hfound, Int.add_sub_cancel]
    · cases hvalue
  · intro count after error herror
    rw [indented_eq] at herror
    split at herror
    · cases herror
    · next failed mid hfailed =>
      cases herror
      exact Int.le_trans (Int.le_add_of_nonneg_right (by decide)) (h.error hfailed)

theorem outcome_bind {part : Render α} (h : part.Balanced) (f : α → Render β) (count : Int) :
    (part >>= f).outcome count = part.outcome count >>= fun a => (f a).outcome count := by
  simp only [outcome, Bind.bind, EStateM.bind]
  cases hpart : part count with
  | ok a after =>
    obtain rfl := h.ok hpart
    rfl
  | error error after => rfl

theorem outcome_mapM {f : α → Render β} (h : ∀ item, (f item).Balanced) (items : List α)
    (count : Int) :
    (items.mapM f).outcome count = items.mapM fun item => (f item).outcome count := by
  induction items with
  | nil => rfl
  | cons item items ih =>
    rw [List.mapM_cons, List.mapM_cons, outcome_bind (h item), ← ih]
    refine bind_congr fun value => ?_
    rw [outcome_bind (balanced_mapM fun item _ => h item)]
    rfl

theorem outcome_lift (step : Except RenderError α) (count : Int) :
    (liftM step : Render α).outcome count = stopAt count step := by
  cases step <;> rfl

theorem outcome_indented (part : Render α) (count : Int) :
    (indented part).outcome count = part.outcome (count + 1) := by
  rw [outcome, outcome, indented_eq]
  cases part (count + 1) <;> rfl

/-! ### Moving steps -/

theorem lift_ok (value : α) :
    (liftM (Except.ok value : Except RenderError α) : Render α) = pure value :=
  rfl

theorem lift_eq_ok {step : Except RenderError α} {value : α} (h : step = .ok value) (count : Int) :
    (liftM step : Render α) count = .ok value count := by
  rw [h]
  rfl

theorem lift_bind (step : Except RenderError α) (f : α → Except RenderError β) :
    (liftM (step >>= f) : Render β) = (liftM step : Render α) >>= fun a => liftM (f a) := by
  cases step <;> rfl

/-- The indent can be read before or behind a part. -/
theorem indentation_comm {part : Render α} (h : part.Balanced) (f : String → α → Render β) :
    (indentation >>= fun indent => part >>= f indent) =
      part >>= fun a => indentation >>= fun indent => f indent a := by
  funext count
  show EStateM.bind part (f (indentText count)) count = EStateM.bind part _ count
  rw [EStateM.bind, EStateM.bind]
  cases hpart : part count with
  | ok a after =>
    obtain rfl := h.ok hpart
    rfl
  | error error after => rfl

theorem indented_map (part : Render α) (f : α → β) : indented (f <$> part) = f <$> indented part := by
  simp only [indented, map_eq_pure_bind, bind_assoc, pure_bind]

theorem indented_pure (value : α) : indented (pure value) = pure value := by
  funext count
  show EStateM.Result.ok value (count + 1 - 1) = .ok value count
  rw [Int.add_sub_cancel]

end Render

end Polyglot
