import Polyglot.Proofs.Reading

/-!
# Progress of parsers

A parser moves the cursor to the right or leaves it where it is, also where it fails. A rule of a
grammar reads a token before it comes back to itself, so it never uses up the rounds that
`Parser.fix` gives it.

`Progress least p q c` says this of two parsers at once: from `c` on they do the same, and they read
at least `least` tokens if they succeed. The two are one rule that was given different parsers to
use in its own place, which agree wherever fewer tokens are left. What the rule does then does not
depend on the number of rounds that are left either: `fix_eq` is the equation of the recursion,
without a bound.
-/

namespace Polyglot

theorem Cursor.exists_spans_next (c : Cursor) : ∃ ts, c.Spans ts c.next := by
  obtain ⟨past, rest, finish⟩ := c
  cases rest with
  | nil => exact ⟨[], .refl _⟩
  | cons t ts => exact ⟨[t], .next rfl⟩

namespace Parser

variable {α β : Type} {area : Area} {least : Nat} {c : Cursor}

/-- Where a parser may end that starts from `c`: behind at least `least` more tokens if it succeeds,
not before `c` if it fails, and it does not fail for want of rounds. -/
def Moved (least : Nat) (c : Cursor) : EStateM.Result Diagnostic Cursor α → Prop
  | .ok _ after => ∃ ts, least ≤ ts.length ∧ c.Spans ts after
  | .error d after => d.problem ≠ .stalled ∧ ∃ ts, c.Spans ts after

/-- From `c` on, the two parsers do the same and move the cursor. -/
def Progress (least : Nat) (p q : Parser α) (c : Cursor) : Prop :=
  p c = q c ∧ Moved least c (p c)

theorem Progress.of_ok {p q : Parser α} {a : α} {after : Cursor} (h : Progress least p q c)
    (hp : p c = .ok a after) : ∃ ts, least ≤ ts.length ∧ c.Spans ts after := by
  have hmoved := h.2
  rw [hp] at hmoved
  exact hmoved

theorem Progress.of_error {p q : Parser α} {d : Diagnostic} {after : Cursor}
    (h : Progress least p q c) (hp : p c = .error d after) :
    d.problem ≠ .stalled ∧ ∃ ts, c.Spans ts after := by
  have hmoved := h.2
  rw [hp] at hmoved
  exact hmoved

theorem Progress.mono {p q : Parser α} {more : Nat} (h : Progress more p q c)
    (hle : least ≤ more) : Progress least p q c := by
  refine ⟨h.1, ?_⟩
  cases hp : p c with
  | ok a after =>
    obtain ⟨ts, hts, hspan⟩ := h.of_ok hp
    exact ⟨ts, hle.trans hts, hspan⟩
  | error d after => exact h.of_error hp

/-- The second step has to read what the first one leaves of the count. -/
theorem Progress.bind {p q : Parser α} {f g : α → Parser β} {first : Nat}
    (h : Progress first p q c)
    (hf : ∀ a after, after.rest.length + first ≤ c.rest.length →
      Progress (least - first) (f a) (g a) after) :
    Progress least (p >>= f) (q >>= g) c := by
  unfold Progress
  simp only [Bind.bind, EStateM.bind]
  rw [← h.1]
  cases hp : p c with
  | error d after => exact ⟨rfl, h.of_error hp⟩
  | ok a after =>
    obtain ⟨ts, hts, hspan⟩ := h.of_ok hp
    have hlength := hspan.length
    have hrest := hf a after (by omega)
    refine ⟨hrest.1, ?_⟩
    dsimp only
    cases hb : f a after with
    | ok b last =>
      obtain ⟨us, hus, hspan'⟩ := hrest.of_ok hb
      refine ⟨ts ++ us, ?_, hspan.trans hspan'⟩
      rw [List.length_append]
      omega
    | error d last =>
      obtain ⟨hd, us, hspan'⟩ := hrest.of_error hb
      exact ⟨hd, ts ++ us, hspan.trans hspan'⟩

theorem progress_pure (a : α) : Progress 0 (pure a : Parser α) (pure a) c :=
  ⟨rfl, [], Nat.le_refl _, .refl c⟩

theorem Progress.map {p q : Parser α} (h : Progress least p q c) (f : α → β) :
    Progress least (f <$> p) (f <$> q) c := by
  unfold Progress
  simp only [Functor.map, EStateM.map]
  rw [← h.1]
  refine ⟨rfl, ?_⟩
  cases hp : p c with
  | ok a after => exact h.of_ok hp
  | error d after => exact h.of_error hp

theorem progress_throw {d : Diagnostic} (h : d.problem ≠ .stalled) :
    Progress least (throw d : Parser α) (throw d) c :=
  ⟨rfl, h, [], .refl c⟩

theorem progress_fail {problem : Option Lexeme → Problem} (h : ∀ found, problem found ≠ .stalled) :
    Progress least (fail area problem : Parser α) (fail area problem) c :=
  ⟨rfl, h _, [], .refl c⟩

theorem progress_peek {f g : Option Lexeme → Parser α} :
    Progress least (peek >>= f) (peek >>= g) c ↔ Progress least (f c.lexeme?) (g c.lexeme?) c :=
  Iff.rfl

theorem progress_sees {l : Lexeme} {f g : Bool → Parser α} :
    Progress least (sees l >>= f) (sees l >>= g) c ↔
      Progress least (f (c.lexeme? == some l)) (g (c.lexeme? == some l)) c :=
  Iff.rfl

theorem progress_get {f g : Cursor → Parser α} :
    Progress least ((get : Parser Cursor) >>= f) ((get : Parser Cursor) >>= g) c ↔
      Progress least (f c) (g c) c :=
  Iff.rfl

/-- Advancing reads the token that was seen. -/
theorem progress_advance {l : Lexeme} (h : c.lexeme? = some l) : Progress 1 advance advance c := by
  obtain ⟨t, ts, hrest, _⟩ := Cursor.rest_of_lexeme? h
  exact ⟨rfl, [t], Nat.le_refl _, .next hrest⟩

/-- Advancing never goes back, also at the end. -/
theorem progress_step : Progress 0 advance advance c :=
  ⟨rfl, c.exists_spans_next.imp fun _ hspan => ⟨Nat.zero_le _, hspan⟩⟩

theorem progress_expect (l : Lexeme) : Progress 1 (expect area l) (expect area l) c := by
  rw [expect, progress_sees]
  split
  · next h => exact progress_advance (by simpa using h)
  · exact progress_fail fun _ => by simp

theorem progress_expectIdent : Progress 1 (expectIdent area) (expectIdent area) c := by
  refine ⟨rfl, ?_⟩
  obtain ⟨past, rest, finish⟩ := c
  cases rest with
  | nil => exact ⟨by simp, [], .refl _⟩
  | cons t ts =>
    obtain ⟨l, pos⟩ := t
    cases l with
    | ident name => exact ⟨_, Nat.le_refl _, .next rfl⟩
    | _ => exact ⟨by simp, [], .refl _⟩

theorem progress_expectEnd : Progress 0 (expectEnd area) (expectEnd area) c := by
  refine ⟨rfl, ?_⟩
  unfold expectEnd
  cases c.rest with
  | nil => exact ⟨[], Nat.le_refl _, .refl c⟩
  | cons t ts => exact ⟨by simp, [], .refl c⟩

/-! ## Loops -/

/-- Rounds enough on both sides: the loops agree, as each round comes to the next one with fewer
tokens before it. -/
theorem progress_iterate {body body' : Parser α → Parser α} {k : Nat}
    (h : ∀ n p q, n < k → (∀ c, c.rest.length < n → Progress least p q c) →
      ∀ c, c.rest.length = n → Progress least (body p) (body' q) c) :
    ∀ depth depth' c, c.rest.length < depth → c.rest.length < depth' → c.rest.length < k →
      Progress least (iterate body depth) (iterate body' depth') c := by
  intro depth
  induction depth with
  | zero => intro depth' c hc; omega
  | succ depth ih =>
    rintro (_ | depth') c hc hc' hk
    · omega
    · refine h c.rest.length (iterate body depth) (iterate body' depth') hk (fun c' hless => ?_) c rfl
      exact ih depth' c' (by omega) (by omega) (by omega)

theorem progress_fix {body body' : Parser α → Parser α} {k : Nat}
    (h : ∀ n p q, n < k → (∀ c, c.rest.length < n → Progress least p q c) →
      ∀ c, c.rest.length = n → Progress least (body p) (body' q) c) (hc : c.rest.length < k) :
    Progress least (fix body) (fix body') c :=
  progress_iterate h _ _ c (Nat.lt_succ_self _) (Nat.lt_succ_self _) hc

/-- The parser that a rule describes in terms of itself solves the equation of the rule. -/
theorem fix_eq {body : Parser α → Parser α}
    (h : ∀ n p q, (∀ c, c.rest.length < n → Progress least p q c) →
      ∀ c, c.rest.length = n → Progress least (body p) (body q) c) :
    fix body = body (fix body) := by
  funext c
  have hfewer : ∀ c', c'.rest.length < c.rest.length →
      Progress least (iterate body c.rest.length) (fix body) c' := fun c' hless =>
    progress_iterate (k := c.rest.length) (fun n p q _ => h n p q) _ _ c' hless
      (Nat.lt_succ_self _) hless
  exact (h c.rest.length _ _ hfewer c rfl).1

theorem progress_many {continues : Cursor → Bool} {item item' : Parser α} {k : Nat}
    (h : ∀ c, c.rest.length < k → continues c = true → Progress 1 item item' c)
    (hc : c.rest.length < k) : Progress 0 (many continues item) (many continues item') c := by
  refine progress_fix (k := k) (fun n p q hn hpq c hlen => progress_get.mpr ?_) hc
  split
  · next hgo =>
    refine (h c (by omega) hgo).bind fun first after hafter => ?_
    exact (hpq after (by omega)).bind fun rest _ _ => progress_pure _
  · exact progress_pure []

/-- The separators alone make for progress, so the items may read any number of tokens. -/
theorem progress_manyAfter {separator : Lexeme} {item item' : Parser α} {k : Nat}
    (h : ∀ c, c.rest.length < k → Progress least item item' c) (hc : c.rest.length ≤ k) :
    Progress 0 (manyAfter separator item) (manyAfter separator item') c := by
  refine progress_many (k := k + 1) (fun c hc hgo => ?_) (by omega)
  have hsee : c.lexeme? = some separator := by simpa using hgo
  exact (progress_advance hsee).bind fun _ after hafter =>
    (h after (by omega)).mono (Nat.zero_le _)

theorem progress_enclosed {close : Symbol} {item item' : Parser α} {k : Nat}
    (h : ∀ c, c.rest.length ≤ k → Progress least item item' c) (hc : c.rest.length ≤ k) :
    Progress 1 (enclosed area close item) (enclosed area close item') c := by
  rw [enclosed, enclosed, progress_sees]
  split
  · next hsee =>
    have hclose : c.lexeme? = some (.symbol close) := by simpa using hsee
    exact (progress_advance hclose).bind fun _ _ _ => progress_pure []
  · refine ((h c hc).mono (Nat.zero_le _)).bind fun first after hafter => ?_
    refine (progress_manyAfter (k := k) (fun c hc => h c (by omega)) (by omega)).bind
      fun rest _ _ => ?_
    exact (progress_expect _).bind fun _ _ _ => progress_pure _

theorem progress_names : Progress 0 (names area) (names area) c := by
  refine progress_many (k := c.rest.length + 1) (fun c _ _ => ?_) (Nat.lt_succ_self _)
  exact progress_expectIdent.bind fun _ _ _ => progress_pure _

end Parser

end Polyglot
