import Mathlib
import Polyglot.Cursor

/-!
# What a parser reads

Two judgements relate a parser to a grammar. `Reads` speaks of every cursor: a parser that succeeds
has read a phrase of the grammar, and one that fails blames the right area at a place that it
looked at. `Accepts` speaks of one list of tokens: the parser reads exactly these, whatever
stands behind them.

Both compose along the sequence of a parser, and both pass through the loops of `Parser.fix`: the
first because every round reads a token, the second because a list of tokens has no more phrases
than tokens.
-/

namespace Polyglot

namespace Grammar

/-! ## Repetition in a grammar -/

variable {σ τ α : Type}

/-- Phrases one after the other, possibly none. -/
inductive Many (phrase : List σ → α → Prop) : List σ → List α → Prop
  | nil : Many phrase [] []
  | cons {ts us : List σ} {a : α} {as : List α} :
      phrase ts a → Many phrase us as → Many phrase (ts ++ us) (a :: as)

/-- A phrase behind a separator. -/
inductive After (separator : σ → Prop) (phrase : List σ → α → Prop) : List σ → α → Prop
  | mk {s : σ} {ts : List σ} {a : α} :
      separator s → phrase ts a → After separator phrase (s :: ts) a

/-- Each phrase is a part of the whole. -/
theorem Many.mono_of_part {P Q : List σ → α → Prop} {ts : List σ} {as : List α} (h : Many P ts as)
    (hPQ : ∀ us a, P us a → us <:+: ts → Q us a) : Many Q ts as := by
  induction h with
  | nil => exact .nil
  | @cons ts us a as hp _ ih =>
    refine .cons (hPQ ts a hp (List.prefix_append ts us).isInfix) (ih fun vs b hb hpart => ?_)
    exact hPQ vs b hb (hpart.trans (List.suffix_append ts us).isInfix)

theorem Many.mono {P Q : List σ → α → Prop} {ts : List σ} {as : List α} (h : Many P ts as)
    (hPQ : ∀ us a, P us a → us.length ≤ ts.length → Q us a) : Many Q ts as :=
  h.mono_of_part fun us a hp hpart => hPQ us a hp hpart.length_le

theorem Many.map_right {β : Type} {P : List σ → β → Prop} {g : α → β} {ts : List σ} {as : List α}
    (h : Many (fun us a => P us (g a)) ts as) : Many P ts (as.map g) := by
  induction h with
  | nil => exact .nil
  | cons hp _ ih => exact .cons hp ih

theorem Many.append {P : List σ → α → Prop} {ts us : List σ} {as bs : List α} (h : Many P ts as)
    (h' : Many P us bs) : Many P (ts ++ us) (as ++ bs) := by
  induction h with
  | nil => exact h'
  | cons hp _ ih =>
    rw [List.append_assoc]
    exact .cons hp ih

/-- Every item is the value of a phrase inside. -/
theorem Many.exists_of_mem {P : List σ → α → Prop} {ts : List σ} {as : List α} (h : Many P ts as)
    {a : α} (ha : a ∈ as) : ∃ us, us <:+: ts ∧ P us a := by
  induction h with
  | nil => cases ha
  | @cons us vs b bs hp _ ih =>
    rcases List.mem_cons.mp ha with rfl | ha
    · exact ⟨us, (List.prefix_append us vs).isInfix, hp⟩
    · obtain ⟨ws, hpart, hw⟩ := ih ha
      exact ⟨ws, hpart.trans (List.suffix_append us vs).isInfix, hw⟩

/-- Every symbol belongs to a phrase inside. -/
theorem Many.exists_phrase {P : List σ → α → Prop} {ts : List σ} {as : List α} (h : Many P ts as)
    {t : σ} (ht : t ∈ ts) : ∃ us a, us <:+: ts ∧ P us a ∧ t ∈ us := by
  induction h with
  | nil => cases ht
  | @cons us vs a as hp _ ih =>
    rcases List.mem_append.mp ht with ht | ht
    · exact ⟨us, a, (List.prefix_append us vs).isInfix, hp, ht⟩
    · obtain ⟨ws, b, hpart, hb, htw⟩ := ih ht
      exact ⟨ws, b, hpart.trans (List.suffix_append us vs).isInfix, hb, htw⟩

theorem Many.map {f : τ → σ} {P : List σ → α → Prop} {ts : List τ} {as : List α}
    (h : Many (fun us a => P (us.map f) a) ts as) : Many P (ts.map f) as := by
  induction h with
  | nil => exact .nil
  | cons hp _ ih =>
    rw [List.map_append]
    exact .cons hp ih

theorem Many.of_map {f : τ → σ} {P : List σ → α → Prop} {ss : List σ} {as : List α}
    (h : Many P ss as) : ∀ {ts : List τ}, ts.map f = ss →
      Many (fun us a => P (us.map f) a) ts as := by
  induction h with
  | nil =>
    intro ts hts
    rw [List.map_eq_nil_iff.mp hts]
    exact .nil
  | cons hp _ ih =>
    intro ts hts
    obtain ⟨us, vs, rfl, rfl, hvs⟩ := List.map_eq_append_iff.mp hts
    exact .cons hp (ih hvs)

theorem After.map {f : τ → σ} {sep : σ → Prop} {P : List σ → α → Prop} {ts : List τ} {a : α}
    (h : After (fun t => sep (f t)) (fun us a => P (us.map f) a) ts a) :
    After sep P (ts.map f) a := by
  cases h with
  | mk hs hp => exact .mk hs hp

theorem After.of_map {f : τ → σ} {sep : σ → Prop} {P : List σ → α → Prop} {ts : List τ} {a : α}
    (h : After sep P (ts.map f) a) :
    After (fun t => sep (f t)) (fun us a => P (us.map f) a) ts a := by
  generalize hss : ts.map f = ss at h
  cases h with
  | mk hs hp =>
    obtain ⟨t, us, rfl, rfl, rfl⟩ := List.map_eq_cons_iff.mp hss
    exact .mk hs hp

end Grammar

/-! ## Moving the cursor -/

namespace Cursor

/-- Between `before` and `after` the tokens `read` were read. -/
structure Spans (before : Cursor) (read : List Token) (after : Cursor) : Prop where
  rest : before.rest = read ++ after.rest
  past : after.past = read.reverse ++ before.past
  finish : after.finish = before.finish

theorem Spans.refl (c : Cursor) : c.Spans [] c :=
  ⟨rfl, rfl, rfl⟩

theorem Spans.trans {a b c : Cursor} {ts us : List Token} (h : a.Spans ts b) (h' : b.Spans us c) :
    a.Spans (ts ++ us) c := by
  refine ⟨?_, ?_, h'.finish.trans h.finish⟩
  · rw [h.rest, h'.rest, List.append_assoc]
  · rw [h'.past, h.past, List.reverse_append, List.append_assoc]

theorem Spans.next {c : Cursor} {t : Token} {ts : List Token} (h : c.rest = t :: ts) :
    c.Spans [t] c.next := by
  obtain ⟨past, rest, finish⟩ := c
  cases h
  exact ⟨rfl, rfl, rfl⟩

theorem Spans.length {a b : Cursor} {ts : List Token} (h : a.Spans ts b) :
    a.rest.length = ts.length + b.rest.length := by
  rw [h.rest, List.length_append]

theorem lexeme?_eq (c : Cursor) : c.lexeme? = c.rest.head?.map Token.lexeme := by
  obtain ⟨past, rest, finish⟩ := c
  cases rest <;> rfl

/-- A cursor that sees a lexeme has a token to read. -/
theorem rest_of_lexeme? {c : Cursor} {l : Lexeme} (h : c.lexeme? = some l) :
    ∃ t ts, c.rest = t :: ts ∧ t.lexeme = l := by
  rw [lexeme?_eq] at h
  cases hc : c.rest with
  | nil => simp [hc] at h
  | cons t ts => exact ⟨t, ts, rfl, by simpa [hc] using h⟩

end Cursor

namespace Parser

open Grammar

variable {α β : Type} {area : Area}

/-- A sequence that succeeds has succeeded step by step. -/
theorem bind_eq_ok {p : Parser α} {f : α → Parser β} {c last : Cursor} {b : β}
    (h : (p >>= f) c = .ok b last) : ∃ a after, p c = .ok a after ∧ f a after = .ok b last := by
  simp only [Bind.bind, EStateM.bind] at h
  split at h
  · next a after hp => exact ⟨a, after, hp, h⟩
  · cases h

/-! ## Reading phrases -/

/-- From `cursor` on the parser reads a phrase of the grammar, or it fails in `area`, at the place
where it stopped or at a token that it read. -/
def Reads (area : Area) (p : Parser α) (cursor : Cursor) (phrase : List Token → α → Prop) : Prop :=
  match p cursor with
  | .ok a after => ∃ ts, cursor.Spans ts after ∧ phrase ts a
  | .error d after => d.area = area ∧
      ∃ ts, cursor.Spans ts after ∧ (d.pos = after.mark.pos ∨ ∃ t ∈ ts, d.pos = t.pos)

theorem Reads.of_ok {p : Parser α} {c c' : Cursor} {P : List Token → α → Prop} {a : α}
    (h : p.Reads area c P) (hp : p c = .ok a c') : ∃ ts, c.Spans ts c' ∧ P ts a := by
  unfold Reads at h
  rw [hp] at h
  exact h

theorem Reads.of_error {p : Parser α} {c c' : Cursor} {P : List Token → α → Prop}
    {d : Diagnostic} (h : p.Reads area c P) (hp : p c = .error d c') :
    d.area = area ∧
      ∃ ts, c.Spans ts c' ∧ (d.pos = c'.mark.pos ∨ ∃ t ∈ ts, d.pos = t.pos) := by
  unfold Reads at h
  rw [hp] at h
  exact h

/-- The tokens of a phrase are those that the cursor passes over. -/
theorem Reads.mono_of_spans {p : Parser α} {c : Cursor} {P Q : List Token → α → Prop}
    (h : p.Reads area c P) (hPQ : ∀ ts a after, c.Spans ts after → P ts a → Q ts a) :
    p.Reads area c Q := by
  unfold Reads at h ⊢
  split
  · next a after heq =>
    rw [heq] at h
    obtain ⟨ts, hspan, hp⟩ := h
    exact ⟨ts, hspan, hPQ ts a after hspan hp⟩
  · next heq =>
    rw [heq] at h
    exact h

theorem Reads.mono {p : Parser α} {c : Cursor} {P Q : List Token → α → Prop}
    (h : p.Reads area c P) (hPQ : ∀ ts a, P ts a → Q ts a) : p.Reads area c Q :=
  h.mono_of_spans fun ts a _ _ hp => hPQ ts a hp

theorem Reads.bind {p : Parser α} {f : α → Parser β} {c : Cursor} {P : List Token → α → Prop}
    {Q : List Token → β → Prop} (h : p.Reads area c P)
    (hf : ∀ ts a after, c.Spans ts after → P ts a →
      (f a).Reads area after fun us b => Q (ts ++ us) b) :
    (p >>= f).Reads area c Q := by
  unfold Reads at h ⊢
  simp only [Bind.bind, EStateM.bind]
  cases hp : p c with
  | error d after =>
    rw [hp] at h
    exact h
  | ok a after =>
    rw [hp] at h
    obtain ⟨ts, hspan, hP⟩ := h
    have hrest := hf ts a after hspan hP
    unfold Reads at hrest
    dsimp only
    cases hb : f a after with
    | ok b last =>
      rw [hb] at hrest
      obtain ⟨us, hspan', hQ⟩ := hrest
      exact ⟨ts ++ us, hspan.trans hspan', hQ⟩
    | error d last =>
      rw [hb] at hrest
      obtain ⟨harea, us, hspan', hpos⟩ := hrest
      refine ⟨harea, ts ++ us, hspan.trans hspan', hpos.imp_right ?_⟩
      rintro ⟨t, ht, heq⟩
      exact ⟨t, List.mem_append_right ts ht, heq⟩

theorem reads_pure {c : Cursor} {P : List Token → α → Prop} {a : α} (h : P [] a) :
    (pure a : Parser α).Reads area c P :=
  ⟨[], .refl c, h⟩

theorem reads_fail {c : Cursor} {P : List Token → α → Prop} (problem : Option Lexeme → Problem) :
    (fail area problem : Parser α).Reads area c P :=
  ⟨rfl, [], .refl c, .inl rfl⟩

theorem reads_peek {c : Cursor} {P : List Token → α → Prop} {f : Option Lexeme → Parser α} :
    (peek >>= f).Reads area c P ↔ (f c.lexeme?).Reads area c P :=
  Iff.rfl

theorem reads_sees {c : Cursor} {P : List Token → α → Prop} {l : Lexeme} {f : Bool → Parser α} :
    (sees l >>= f).Reads area c P ↔ (f (c.lexeme? == some l)).Reads area c P :=
  Iff.rfl

theorem reads_get {c : Cursor} {P : List Token → α → Prop} {f : Cursor → Parser α} :
    ((get : Parser Cursor) >>= f).Reads area c P ↔ (f c).Reads area c P :=
  Iff.rfl

theorem reads_advance {c : Cursor} {l : Lexeme} (h : c.lexeme? = some l) :
    advance.Reads area c fun ts _ => ∃ t, ts = [t] ∧ t.lexeme = l := by
  obtain ⟨t, ts, hrest, hl⟩ := Cursor.rest_of_lexeme? h
  exact ⟨[t], .next hrest, t, rfl, hl⟩

theorem reads_expect (c : Cursor) (l : Lexeme) :
    (expect area l).Reads area c fun ts _ => ∃ t, ts = [t] ∧ t.lexeme = l := by
  rw [expect, reads_sees]
  split
  · next h => exact reads_advance (by simpa using h)
  · exact reads_fail _

theorem reads_expectIdent (c : Cursor) :
    (expectIdent area).Reads area c fun ts found => ts = [⟨.ident found.1, found.2⟩] := by
  unfold Reads
  obtain ⟨past, rest, finish⟩ := c
  cases rest with
  | nil => exact ⟨rfl, [], .refl _, .inl rfl⟩
  | cons t ts =>
    obtain ⟨l, pos⟩ := t
    cases l with
    | ident name => exact ⟨_, .next rfl, rfl⟩
    | _ => exact ⟨rfl, [], .refl _, .inl rfl⟩

theorem reads_expectEnd (c : Cursor) :
    (expectEnd area).Reads area c fun ts _ => ts = [] ∧ c.rest = [] := by
  unfold Reads expectEnd
  cases hrest : c.rest with
  | nil => exact ⟨[], .refl c, rfl, rfl⟩
  | cons t ts => exact ⟨rfl, [], .refl c, .inl rfl⟩

/-! ### Loops -/

/-- A loop reads its phrase if each round does, given that the rounds inside it do. A round inside
has fewer tokens before it. -/
theorem reads_iterate {body : Parser α → Parser α} {P : List Token → α → Prop} {k : Nat}
    (h : ∀ n p, n < k → (∀ c, c.rest.length < n → p.Reads area c P) →
      ∀ c, c.rest.length = n → (body p).Reads area c P) :
    ∀ depth c, c.rest.length < depth → c.rest.length < k →
      (iterate body depth).Reads area c P := by
  intro depth
  induction depth with
  | zero => intro c hc _; omega
  | succ depth ih =>
    intro c hc hb
    refine h c.rest.length (iterate body depth) hb (fun c' hc' => ?_) c rfl
    exact ih c' (by omega) (by omega)

theorem reads_fix {body : Parser α → Parser α} {P : List Token → α → Prop} {k : Nat}
    (h : ∀ n p, n < k → (∀ c, c.rest.length < n → p.Reads area c P) →
      ∀ c, c.rest.length = n → (body p).Reads area c P) {c : Cursor}
    (hc : c.rest.length < k) : (fix body).Reads area c P :=
  reads_iterate h (c.rest.length + 1) c (Nat.lt_succ_self _) hc

/-- A loop keeps whatever moving the cursor keeps. -/
theorem reads_many_of_invariant {I : Cursor → Prop}
    (hI : ∀ {c ts after}, c.Spans ts after → I c → I after) {continues : Cursor → Bool}
    {item : Parser α} {P : List Token → α → Prop} {k : Nat} (hne : ∀ ts a, P ts a → ts ≠ [])
    (h : ∀ c, I c → c.rest.length < k → continues c = true → item.Reads area c P) {c : Cursor}
    (hi : I c) (hc : c.rest.length < k) : (many continues item).Reads area c (Many P) := by
  unfold many fix
  have hdepth : ∀ depth c, I c → c.rest.length < depth → c.rest.length < k →
      (iterate (fun more : Parser (List α) => do
        if continues (← get) then
          let first ← item
          let rest ← more
          return first :: rest
        else
          return []) depth).Reads area c (Many P) := by
    intro depth
    induction depth with
    | zero => intro c _ hc; omega
    | succ depth ih =>
      intro c hi hc hb
      refine reads_get.mpr ?_
      split
      · next hgo =>
        refine (h c hi hb hgo).bind fun ts a after hspan hP => ?_
        have hpos := List.length_pos_iff.mpr (hne ts a hP)
        have hlength := hspan.length
        refine (ih after (hI hspan hi) (by omega) (by omega)).bind
          fun us as _ _ hus => reads_pure ?_
        rw [List.append_nil]
        exact .cons hP hus
      · exact reads_pure .nil
  exact hdepth (c.rest.length + 1) c hi (Nat.lt_succ_self _) hc

theorem reads_many {continues : Cursor → Bool} {item : Parser α} {P : List Token → α → Prop}
    {k : Nat} (hne : ∀ ts a, P ts a → ts ≠ [])
    (h : ∀ c, c.rest.length < k → continues c = true → item.Reads area c P) {c : Cursor}
    (hc : c.rest.length < k) : (many continues item).Reads area c (Many P) :=
  reads_many_of_invariant (I := fun _ => True) (fun _ _ => trivial) hne (fun c _ => h c) trivial hc

theorem reads_manyAfter {separator : Lexeme} {item : Parser α} {P : List Token → α → Prop}
    {k : Nat} (h : ∀ c, c.rest.length < k → item.Reads area c P) {c : Cursor}
    (hc : c.rest.length ≤ k) :
    (manyAfter separator item).Reads area c
      (Many (After (fun t => t.lexeme = separator) P)) := by
  refine reads_many (k := k + 1) (fun ts a hP => by cases hP; simp)
    (fun c hc hgo => ?_) (by omega)
  have hsee : c.lexeme? = some separator := by simpa using hgo
  refine (reads_advance hsee).bind fun ts _ after hspan hts => ?_
  obtain ⟨t, rfl, ht⟩ := hts
  have hlength := hspan.length
  rw [List.length_singleton] at hlength
  exact (h after (by omega)).mono fun us a hP => .mk ht hP

/-- The phrases between brackets: none, or one and then others behind commas. -/
inductive Enclosed (close : Symbol) (P : List Token → α → Prop) : List Token → List α → Prop
  | nil {t : Token} : t.lexeme = .symbol close → Enclosed close P [t] []
  | cons {t : Token} {ts us : List Token} {a : α} {as : List α} :
      P ts a → Many (After (fun t => t.lexeme = .symbol .comma) P) us as →
      t.lexeme = .symbol close → Enclosed close P (ts ++ (us ++ [t])) (a :: as)

theorem Enclosed.exists_of_mem {close : Symbol} {P : List Token → α → Prop} {ts : List Token}
    {as : List α} (h : Enclosed close P ts as) {a : α} (ha : a ∈ as) :
    ∃ us, us <:+: ts ∧ P us a := by
  cases h with
  | nil => cases ha
  | @cons t ts us b bs hP hmany _ =>
    rcases List.mem_cons.mp ha with rfl | ha
    · exact ⟨ts, (List.prefix_append ts _).isInfix, hP⟩
    · obtain ⟨vs, hpart, hafter⟩ := hmany.exists_of_mem ha
      cases hafter with
      | @mk comma ws _ _ hws =>
        refine ⟨ws, ?_, hws⟩
        have hinner : comma :: ws <:+: us ++ [t] := hpart.trans (List.prefix_append us [t]).isInfix
        exact ((List.suffix_cons comma ws).isInfix.trans hinner).trans
          (List.suffix_append ts _).isInfix

theorem reads_enclosed {close : Symbol} {item : Parser α} {P : List Token → α → Prop}
    {k : Nat} (h : ∀ c, c.rest.length ≤ k → item.Reads area c P) {c : Cursor}
    (hc : c.rest.length ≤ k) :
    (enclosed area close item).Reads area c (Enclosed close P) := by
  rw [enclosed, reads_sees]
  split
  · next hsee =>
    refine (reads_advance (l := .symbol close) (by simpa using hsee)).bind
      fun ts _ after _ hts => reads_pure ?_
    obtain ⟨t, rfl, ht⟩ := hts
    exact .nil ht
  · refine (h c hc).bind fun ts a after hspan hP => ?_
    have hlength := hspan.length
    refine (reads_manyAfter (k := k) (fun c hc => h c (by omega)) (by omega)).bind
      fun us as _ _ hus => ?_
    refine (reads_expect _ _).bind fun vs _ _ _ hvs => reads_pure ?_
    obtain ⟨t, rfl, ht⟩ := hvs
    rw [List.append_nil]
    exact .cons hP hus ht

theorem reads_names (c : Cursor) :
    (names area).Reads area c fun ts found => ts.map Token.lexeme = found.map Lexeme.ident := by
  have hmany : (names area).Reads area c
      (Many fun ts name => ts.map Token.lexeme = [.ident name]) := by
    refine reads_many (k := c.rest.length + 1) (fun ts a h => ?_) (fun c _ _ => ?_) (by omega)
    · rintro rfl
      simp at h
    · refine (reads_expectIdent c).bind fun ts found _ _ hts => reads_pure ?_
      subst hts
      rfl
  refine hmany.mono fun ts found h => ?_
  induction h with
  | nil => rfl
  | cons hP _ ih => rw [List.map_append, hP, ih]; rfl

/-! ## Accepting tokens -/

/-- Behind the tokens `past`, and with the tokens `rest` to come afterwards, the parser reads
exactly `ts` and yields `a`. -/
def Accepts (p : Parser α) (past ts : List Token) (a : α) (rest : List Token) : Prop :=
  ∀ finish, p ⟨past, ts ++ rest, finish⟩ = .ok a ⟨ts.reverse ++ past, rest, finish⟩

theorem Accepts.bind {p : Parser α} {f : α → Parser β} {past ts us rest : List Token} {a : α}
    {b : β} (h : p.Accepts past ts a (us ++ rest))
    (hf : (f a).Accepts (ts.reverse ++ past) us b rest) :
    (p >>= f).Accepts past (ts ++ us) b rest := by
  intro finish
  simp only [Bind.bind, EStateM.bind]
  rw [List.append_assoc, h finish]
  dsimp only
  rw [hf finish, List.reverse_append, List.append_assoc]

/-- A step that accepts its tokens leaves the rest to the steps behind it. -/
theorem Accepts.bind_eq {p : Parser α} {past ts rest : List Token} {a : α}
    (h : p.Accepts past ts a rest) (f : α → Parser β) (finish : Position) :
    (p >>= f) ⟨past, ts ++ rest, finish⟩ = f a ⟨ts.reverse ++ past, rest, finish⟩ := by
  simp only [Bind.bind, EStateM.bind, h finish]

theorem accepts_pure {past rest : List Token} (a : α) :
    (pure a : Parser α).Accepts past [] a rest :=
  fun _ => rfl

/-- The last step of a sequence reads nothing. -/
theorem Accepts.map {p : Parser α} {past ts rest : List Token} {a : α}
    (h : p.Accepts past ts a rest) (f : α → β) :
    (p >>= fun a => pure (f a)).Accepts past ts (f a) rest := by
  intro finish
  simp only [Bind.bind, EStateM.bind]
  rw [h finish]
  rfl

theorem accepts_peek {past ts rest : List Token} {a : α} {f : Option Lexeme → Parser α}
    (h : (f ((ts ++ rest).head?.map Token.lexeme)).Accepts past ts a rest) :
    (peek >>= f).Accepts past ts a rest := by
  intro finish
  rw [← h finish, ← Cursor.lexeme?_eq ⟨past, ts ++ rest, finish⟩]
  rfl

theorem accepts_peek_cons {past us rest : List Token} {t : Token} {l : Lexeme} (ht : t.lexeme = l)
    {a : α} {f : Option Lexeme → Parser α} (h : (f (some l)).Accepts past (t :: us) a rest) :
    (peek >>= f).Accepts past (t :: us) a rest := by
  subst ht
  exact accepts_peek h

theorem accepts_sees {past ts rest : List Token} {a : α} {l : Lexeme} {f : Bool → Parser α}
    (h : (f ((ts ++ rest).head?.map Token.lexeme == some l)).Accepts past ts a rest) :
    (sees l >>= f).Accepts past ts a rest := by
  intro finish
  rw [← h finish, ← Cursor.lexeme?_eq ⟨past, ts ++ rest, finish⟩]
  rfl

theorem accepts_advance {past us rest : List Token} {f : Unit → Parser α} {a : α} (t : Token)
    (h : (f ()).Accepts (t :: past) us a rest) :
    (advance >>= f).Accepts past (t :: us) a rest := by
  intro finish
  have hlast := h finish
  rw [List.reverse_cons, List.append_assoc]
  exact hlast

theorem accepts_expect {past us rest : List Token} {t : Token} {l : Lexeme} {f : Unit → Parser α}
    {a : α} (ht : t.lexeme = l) (h : (f ()).Accepts (t :: past) us a rest) :
    (expect area l >>= f).Accepts past (t :: us) a rest := by
  intro finish
  have hsee : (⟨past, t :: us ++ rest, finish⟩ : Cursor).lexeme? = some l := by
    rw [← ht]
    rfl
  simp only [expect, sees, Bind.bind, EStateM.bind, hsee, beq_self_eq_true, if_true]
  have hlast := h finish
  rw [List.reverse_cons, List.append_assoc]
  exact hlast

theorem accepts_expectIdent {past us rest : List Token} {f : String × Position → Parser α} {a : α}
    (name : String) (pos : Position)
    (h : (f (name, pos)).Accepts (⟨.ident name, pos⟩ :: past) us a rest) :
    (expectIdent area >>= f).Accepts past (⟨.ident name, pos⟩ :: us) a rest := by
  intro finish
  have hlast := h finish
  rw [List.reverse_cons, List.append_assoc]
  exact hlast

theorem accepts_expectEnd {past : List Token} : (expectEnd area).Accepts past [] () [] :=
  fun _ => rfl

/-! ### Loops -/

theorem accepts_fix {body : Parser α → Parser α} {past ts rest : List Token} {a : α}
    (h : ∀ depth, ts.length < depth → (iterate body depth).Accepts past ts a rest) :
    (fix body).Accepts past ts a rest := by
  intro finish
  refine h ((ts ++ rest).length + 1) ?_ finish
  rw [List.length_append]
  omega

/-- A loop reads phrases as long as there are any: its test holds before each of them and fails
behind the last. -/
theorem accepts_many {continues : Cursor → Bool} {item : Parser α}
    {P : List Token → α → Prop} {rest : List Token}
    (hstop : ∀ past finish, past ≠ [] → continues ⟨past, rest, finish⟩ = false)
    (hitem : ∀ past ts a us as, past ≠ [] → P ts a → Many P us as →
      ts ≠ [] ∧ (∀ finish, continues ⟨past, ts ++ (us ++ rest), finish⟩ = true) ∧
        item.Accepts past ts a (us ++ rest))
    {ts : List Token} {as : List α} (h : Many P ts as) {past : List Token} (hpast : past ≠ []) :
    (many continues item).Accepts past ts as rest := by
  refine accepts_fix ?_
  induction h generalizing past with
  | nil =>
    rintro (_ | depth) hdepth finish
    · simp at hdepth
    · simp only [iterate, bind, EStateM.bind, get, getThe, MonadStateOf.get, EStateM.get,
        List.nil_append, hstop past finish hpast]
      rfl
  | @cons ts us a as hP hus ih =>
    obtain ⟨hne, hgo, hreads⟩ := hitem past ts a us as hpast hP hus
    rintro (_ | depth) hdepth finish
    · simp at hdepth
    · have hlength := List.length_pos_iff.mpr hne
      rw [List.length_append] at hdepth
      have hround : ∀ more : Parser (List α), more.Accepts (ts.reverse ++ past) us as rest →
          (do
            let first ← item
            let others ← more
            return first :: others : Parser (List α)).Accepts past (ts ++ us) (a :: as) rest :=
        fun more hmore => hreads.bind (hmore.map (a :: ·))
      rw [← hround _ (ih (by simp [hpast]) depth (by omega)) finish]
      simp only [iterate, bind, EStateM.bind, get, getThe, MonadStateOf.get, EStateM.get]
      rw [List.append_assoc, hgo finish]
      rfl

theorem accepts_manyAfter {separator : Lexeme} {item : Parser α} {P : List Token → α → Prop}
    {rest : List Token} (hstop : rest.head?.map Token.lexeme ≠ some separator)
    (hitem : ∀ past ts a us, P ts a →
      (us = rest ∨ us.head?.map Token.lexeme = some separator) → item.Accepts past ts a us)
    {ts : List Token} {as : List α}
    (h : Many (After (fun t => t.lexeme = separator) P) ts as) {past : List Token}
    (hpast : past ≠ []) : (manyAfter separator item).Accepts past ts as rest := by
  refine accepts_many (fun past finish _ => ?_) (fun past ts a us as _ hP hus => ?_) h hpast
  · rw [Cursor.lexeme?_eq]
    simpa using hstop
  · cases hP with
    | @mk t ts a ht hP =>
      refine ⟨List.cons_ne_nil _ _, fun finish => ?_, ?_⟩
      · rw [Cursor.lexeme?_eq]
        simp [ht]
      · refine accepts_advance t (hitem _ ts a _ hP ?_)
        cases hus with
        | nil => exact .inl rfl
        | cons hafter _ =>
          cases hafter with
          | mk ht' _ => exact .inr (by simp [ht'])

theorem accepts_enclosed {close : Symbol} {item : Parser α} {P : List Token → α → Prop}
    (hclose : close ≠ .comma)
    {ts : List Token} {as : List α} (h : Enclosed close P ts as)
    (hstart : ∀ us a vs, P us a → (us ++ vs).head?.map Token.lexeme ≠ some (.symbol close))
    (hitem : ∀ past us a vs, P us a → us.length < ts.length →
      (vs.head?.map Token.lexeme = some (.symbol .comma) ∨
        vs.head?.map Token.lexeme = some (.symbol close)) → item.Accepts past us a vs)
    {past rest : List Token} (hpast : past ≠ []) :
    (enclosed area close item).Accepts past ts as rest := by
  refine accepts_sees ?_
  cases h with
  | @nil t ht =>
    simp only [List.cons_append, List.head?_cons, Option.map_some, ht, beq_self_eq_true, if_true]
    exact accepts_advance t (accepts_pure [])
  | @cons t us vs a as hP hmany ht =>
    have hopen := hstart us a (vs ++ [t] ++ rest) hP
    rw [if_neg (by simpa using hopen)]
    have hlen : us.length + vs.length < (us ++ (vs ++ [t])).length := by simp
    refine (hitem past us a (vs ++ [t] ++ rest) hP (by omega) ?_).bind ?_
    · cases hmany with
      | nil => exact .inr (by simp [ht])
      | cons hafter _ =>
        cases hafter with
        | mk ht' _ => exact .inl (by simp [ht'])
    · have hmany : Many (After (fun t => t.lexeme = .symbol .comma)
          fun ws b => P ws b ∧ ws.length < (us ++ (vs ++ [t])).length) vs as := by
        refine hmany.mono fun ws b hafter hws => ?_
        cases hafter with
        | mk hcomma hP =>
          rw [List.length_cons] at hws
          exact .mk hcomma ⟨hP, by omega⟩
      refine (accepts_manyAfter ?_ (fun past ws b xs hws hnext => ?_) hmany (by simp [hpast])).bind
        (accepts_expect ht (accepts_pure (a :: as)))
      · simp [ht, hclose]
      · refine hitem past ws b xs hws.1 hws.2 ?_
        rcases hnext with rfl | hcomma
        · exact .inr (by simp [ht])
        · exact .inl hcomma

theorem accepts_names {rest : List Token} (hstop : isIdent (rest.head?.map Token.lexeme) = false)
    {ts : List Token} {found : List String}
    (h : ts.map Token.lexeme = found.map Lexeme.ident) {past : List Token} (hpast : past ≠ []) :
    (names area).Accepts past ts found rest := by
  have hmany : Many (fun ts name => ts.map Token.lexeme = [.ident name]) ts found := by
    induction found generalizing ts with
    | nil =>
      rw [List.map_eq_nil_iff.mp h]
      exact .nil
    | cons name found ih =>
      obtain ⟨t, us, rfl, ht, hus⟩ := List.map_eq_cons_iff.mp h
      exact @Many.cons _ _ _ [t] us _ _ (by simp [ht]) (ih hus)
  refine accepts_many (fun past finish _ => ?_) (fun past ts a us as _ hP _ => ?_) hmany hpast
  · rw [Cursor.lexeme?_eq]
    exact hstop
  · obtain ⟨⟨l, pos⟩, vs, rfl, rfl, hvs⟩ := List.map_eq_cons_iff.mp hP
    rw [List.map_eq_nil_iff.mp hvs]
    exact ⟨by simp, fun finish => rfl, accepts_expectIdent a pos (accepts_pure a)⟩

/-! ## Outcomes -/

theorem eq_ok_of_outcome {p : Parser α} {c : Cursor} {a : α} (h : p.outcome c = .ok a) :
    ∃ after, p c = .ok a after := by
  unfold outcome at h
  split at h
  · next value after hp =>
    rw [Except.ok.inj h] at hp
    exact ⟨after, hp⟩
  · cases h

theorem eq_error_of_outcome {p : Parser α} {c : Cursor} {d : Diagnostic}
    (h : p.outcome c = .error d) : ∃ after, p c = .error d after := by
  unfold outcome at h
  split at h
  · cases h
  · next diagnostic after hp =>
    rw [Except.error.inj h] at hp
    exact ⟨after, hp⟩

theorem outcome_of_accepts {p : Parser α} {tokens : Scan} {a : α}
    (h : p.Accepts [] tokens.tokens a []) : p.outcome (Cursor.ofScan tokens) = .ok a := by
  have hok := h tokens.finish
  rw [List.append_nil] at hok
  unfold outcome Cursor.ofScan
  rw [hok]

end Parser

end Polyglot
