import Polyglot.Cursor.Session
import Polyglot.Proofs.Decl.Progress

/-!
# Safety of reading sessions

A session asks one cursor for this and that, in any order, and goes on from where a failure left the
cursor. One request passes over tokens and never back (`respond_spans`), and over at least one if it
read a rule (`index_lt_of_rule`); so a session runs forward (`pairwise_index_cursors`), and its
cursors stay over the text that it started with (`spans_of_mem_cursors`).

Only looking at a place can miss. Left of the first token the marks start over from the end, once;
further left there is nothing (`respond_eq_nowhere_iff`).
-/

namespace Polyglot

namespace Cursor

theorem Spans.tokens_eq {c after : Cursor} {ts : List Token} (h : c.Spans ts after) :
    after.tokens = c.tokens := by
  rw [tokens, tokens, h.past, h.rest, List.reverse_append, List.reverse_reverse, List.append_assoc]

theorem Spans.index_eq {c after : Cursor} {ts : List Token} (h : c.Spans ts after) :
    after.index = ts.length + c.index := by
  rw [index, index, h.past, List.length_append, List.length_reverse]

/-- What stands right of a cursor is the mark that its index counts to. -/
theorem getElem?_marks (c : Cursor) :
    (c.tokens.map Token.mark ++ [⟨none, c.finish⟩])[c.index]? = some c.mark := by
  obtain ⟨past, rest, finish⟩ := c
  cases rest with
  | nil => simp [tokens, index, mark]
  | cons t ts => simp [tokens, index, mark]

/-- The places that can be looked at end at the first token, counted from the end of the text. -/
theorem lookAt_eq_none_iff (c : Cursor) (offset : Int) :
    c.lookAt offset = none ↔ c.index + offset < -(c.tokens.length + 1 : Int) := by
  unfold lookAt
  dsimp only
  split
  · split
    · next hleft =>
      simp only [List.length_append, List.length_map, List.length_singleton] at hleft
      simp only [true_iff]
      omega
    · next hneg hleft =>
      rw [List.getElem?_eq_none_iff]
      simp only [List.length_append, List.length_map, List.length_singleton] at hleft ⊢
      omega
  · next hpos =>
    rw [List.getElem?_eq_none_iff]
    simp only [List.length_append, List.length_map, List.length_singleton]
    omega

end Cursor

namespace Parser

theorem map_eq_ok {α β : Type} {f : α → β} {p : Parser α} {c after : Cursor} {b : β}
    (h : (f <$> p) c = .ok b after) : ∃ a, p c = .ok a after ∧ f a = b := by
  simp only [Functor.map, EStateM.map] at h
  split at h
  · next a last hp =>
    cases h
    exact ⟨a, hp, rfl⟩
  · cases h

end Parser

open Polyglot.Parser

/-! ## Rules -/

/-- Every rule reads at least one token where it succeeds. -/
theorem Rule.progress (rule : Rule) (c : Cursor) : Progress 1 rule.parser rule.parser c := by
  have hexpr : ∀ c' : Cursor, c'.rest.length < c.rest.length →
      Progress 1 Grammar.expr Grammar.expr c' := fun c' _ => Grammar.progress_expr c'
  have htype (area : Area) : ∀ c' : Cursor, c'.rest.length < c.rest.length →
      Progress 1 (Grammar.typeElement area) (Grammar.typeElement area) c' :=
    fun c' _ => Grammar.progress_typeElement area c'
  have hc : c.rest.length ≤ c.rest.length := Nat.le_refl _
  cases rule with
  | union => exact Grammar.progress_union.bind fun _ _ _ => progress_pure _
  | tag => exact Grammar.progress_tag.map _
  | tagField => exact Grammar.progress_tagField.map _
  | equation => exact Grammar.progress_equation.map _
  | signature => exact Grammar.progress_signature.map _
  | expr => exact (Grammar.progress_expr c).map _
  | cond => exact (Grammar.progress_condWith hexpr hc).map _
  | lambda => exact (Grammar.progress_lambdaWith hexpr hc).map _
  | or => exact (Grammar.progress_orWith hexpr hc).map _
  | and => exact (Grammar.progress_andWith hexpr hc).map _
  | compare => exact (Grammar.progress_compareWith hexpr hc).map _
  | sum => exact (Grammar.progress_sumWith hexpr hc).map _
  | product => exact (Grammar.progress_productWith hexpr hc).map _
  | application => exact (Grammar.progress_applicationWith hexpr hc).map _
  | atom => exact (Grammar.progress_atomWith hexpr hc).map _
  | record => exact (Grammar.progress_recordWith hexpr hc).bind fun _ _ _ => progress_pure _
  | field => exact (Grammar.progress_fieldWith hexpr hc).bind fun _ _ _ => progress_pure _
  | typeElement area => exact (Grammar.progress_typeElement area c).map _
  | argumentType area => exact (Grammar.progress_argumentTypeWith (htype area) hc).map _
  | parenType area => exact (Grammar.progress_parenTypeWith (htype area) hc).map _

namespace Reading

/-! ## Requests -/

theorem progress_take (c : Cursor) : Progress 0 take take c :=
  ⟨rfl, c.exists_spans_next.imp fun _ hspan => ⟨Nat.zero_le _, hspan⟩⟩

theorem answer_progress (request : Request) (c : Cursor) :
    Progress 0 (answer request) (answer request) c := by
  cases request with
  | advance => exact (progress_take c).map _
  | lookAt offset =>
    refine progress_get.mpr ?_
    split
    · exact progress_pure _
    · exact progress_pure _
  | expect area text =>
    refine progress_get.mpr ?_
    split
    · exact (progress_take c).map _
    · exact progress_fail fun _ => by simp
  | expectIdent area =>
    exact progress_get.mpr (progress_expectIdent.bind fun _ _ _ => progress_pure _)
  | expectEnd area => exact progress_expectEnd.bind fun _ _ _ => progress_pure _
  | rule rule => exact ((rule.progress c).map _).mono (Nat.zero_le _)
  | current | reads _ | hasClass _ | seesIdent | atLineStart | describe | startsAtom | remark _ _ =>
    exact progress_get.mpr (progress_pure _)

theorem answer_lookAt (offset : Int) (c : Cursor) :
    answer (.lookAt offset) c = .ok ((c.lookAt offset).elim .nowhere .mark) c := by
  unfold answer
  simp only [Bind.bind, EStateM.bind, get, getThe, MonadStateOf.get, EStateM.get]
  cases c.lookAt offset with
  | none => rfl
  | some mark => rfl

/-- Only looking at a place can find nothing there. -/
theorem exists_lookAt_of_nowhere {request : Request} {c after : Cursor}
    (h : answer request c = .ok .nowhere after) : ∃ offset, request = .lookAt offset := by
  cases request with
  | lookAt offset => exact ⟨offset, rfl⟩
  | expect area text =>
    obtain ⟨_, _, hget, h⟩ := bind_eq_ok h
    cases hget
    split at h
    · cases h
    · cases h
  | expectIdent area =>
    obtain ⟨_, _, _, h⟩ := bind_eq_ok h
    obtain ⟨_, _, _, h⟩ := bind_eq_ok h
    cases h
  | expectEnd area =>
    obtain ⟨_, _, _, h⟩ := bind_eq_ok h
    cases h
  | rule rule =>
    obtain ⟨node, _, hnode⟩ := map_eq_ok h
    cases hnode
  | advance | current | reads _ | hasClass _ | seesIdent | atLineStart | describe | startsAtom
    | remark _ _ => cases h

/-! ## Steps -/

/-- The outcome of a request, and the cursor that it leaves. -/
def respond (request : Request) (c : Cursor) : Except Diagnostic Reply × Cursor :=
  match answer request c with
  | .ok reply after => (.ok reply, after)
  | .error d after => (.error d, after)

theorem session_cons (c : Cursor) (request : Request) (rest : List Request) :
    session c (request :: rest) = respond request c :: session (respond request c).2 rest := by
  rw [session, respond]
  cases answer request c with
  | ok reply after => rfl
  | error d after => rfl

theorem answer_of_respond_ok {request : Request} {c : Cursor} {reply : Reply}
    (h : (respond request c).1 = .ok reply) :
    answer request c = .ok reply (respond request c).2 := by
  unfold respond at h ⊢
  cases hanswer : answer request c with
  | ok found after =>
    rw [hanswer] at h
    cases h
    rfl
  | error d after =>
    rw [hanswer] at h
    cases h

theorem answer_of_respond_error {request : Request} {c : Cursor} {d : Diagnostic}
    (h : (respond request c).1 = .error d) :
    answer request c = .error d (respond request c).2 := by
  unfold respond at h ⊢
  cases hanswer : answer request c with
  | ok found after =>
    rw [hanswer] at h
    cases h
  | error found after =>
    rw [hanswer] at h
    cases h
    rfl

/-- A request passes over some tokens, whether it fails or not. -/
theorem respond_spans (request : Request) (c : Cursor) :
    ∃ ts, c.Spans ts (respond request c).2 := by
  cases houtcome : (respond request c).1 with
  | ok reply =>
    obtain ⟨ts, _, hspan⟩ := (answer_progress request c).of_ok (answer_of_respond_ok houtcome)
    exact ⟨ts, hspan⟩
  | error d => exact ((answer_progress request c).of_error (answer_of_respond_error houtcome)).2

theorem index_lt_of_rule {rule : Rule} {c : Cursor} {reply : Reply}
    (h : (respond (.rule rule) c).1 = .ok reply) : c.index < (respond (.rule rule) c).2.index := by
  obtain ⟨node, hnode, _⟩ := map_eq_ok (answer_of_respond_ok h)
  obtain ⟨ts, hts, hspan⟩ := (rule.progress c).of_ok hnode
  rw [hspan.index_eq]
  omega

theorem respond_eq_nowhere_iff (request : Request) (c : Cursor) :
    (respond request c).1 = .ok .nowhere ↔
      ∃ offset, request = .lookAt offset ∧ c.index + offset < -(c.tokens.length + 1 : Int) := by
  have hlookAt (offset : Int) :
      respond (.lookAt offset) c = (.ok ((c.lookAt offset).elim .nowhere .mark), c) := by
    rw [respond, answer_lookAt]
  constructor
  · intro h
    obtain ⟨offset, rfl⟩ := exists_lookAt_of_nowhere (answer_of_respond_ok h)
    refine ⟨offset, rfl, (c.lookAt_eq_none_iff offset).mp ?_⟩
    rw [hlookAt] at h
    cases hlook : c.lookAt offset with
    | none => rfl
    | some mark =>
      rw [hlook] at h
      cases h
  · rintro ⟨offset, rfl, hleft⟩
    rw [hlookAt, (c.lookAt_eq_none_iff offset).mpr hleft]
    rfl

/-! ## Runs -/

/-- The cursors of a session: the first one, and the one that each request leaves. -/
def cursors (start : Cursor) (requests : List Request) : List Cursor :=
  start :: (session start requests).map Prod.snd

theorem cursors_cons (start : Cursor) (request : Request) (rest : List Request) :
    cursors start (request :: rest) = start :: cursors (respond request start).2 rest := by
  rw [cursors, session_cons, List.map_cons, cursors]

/-- A session passes over tokens from its first cursor to any other. -/
theorem spans_of_mem_cursors {start c : Cursor} {requests : List Request}
    (h : c ∈ cursors start requests) : ∃ ts, start.Spans ts c := by
  induction requests generalizing start with
  | nil =>
    rw [List.mem_singleton.mp h]
    exact ⟨[], .refl start⟩
  | cons request rest ih =>
    rw [cursors_cons] at h
    rcases List.mem_cons.mp h with rfl | h
    · exact ⟨[], .refl c⟩
    · obtain ⟨ts, hstep⟩ := respond_spans request start
      obtain ⟨us, hrun⟩ := ih h
      exact ⟨ts ++ us, hstep.trans hrun⟩

theorem pairwise_index_cursors (start : Cursor) (requests : List Request) :
    ((cursors start requests).map Cursor.index).Pairwise (· ≤ ·) := by
  rw [List.pairwise_map]
  induction requests generalizing start with
  | nil => exact List.pairwise_singleton _ start
  | cons request rest ih =>
    rw [cursors_cons]
    refine List.pairwise_cons.mpr ⟨fun c hc => ?_, ih _⟩
    have hmem : c ∈ cursors start (request :: rest) := by
      rw [cursors_cons]
      exact List.mem_cons_of_mem _ hc
    obtain ⟨ts, hspan⟩ := spans_of_mem_cursors hmem
    rw [hspan.index_eq]
    exact Nat.le_add_left _ _

/-- A session answers each request from where the ones before it left the cursor. -/
theorem exists_respond (start : Cursor) {requests : List Request} {i : Nat} {request : Request}
    (h : requests[i]? = some request) :
    ∃ before, (cursors start requests)[i]? = some before ∧
      (session start requests)[i]? = some (respond request before) := by
  induction requests generalizing start i with
  | nil => cases h
  | cons first rest ih =>
    rw [cursors_cons, session_cons]
    cases i with
    | zero =>
      cases h
      exact ⟨start, rfl, rfl⟩
    | succ i => exact ih _ h

/-- However the requests of a session follow each other, and whichever of them fail: the cursor
never goes back, and what it looks at is one of the marks, up to the end of the text. Each request
is answered. Only a look left of the first token finds nothing, and a rule that succeeds has read a
token. Nothing stalls, and the parsers of types and expressions solve the equations of their rules,
without a bound on the recursion. -/
theorem session_safe (found : Scan) (requests : List Request) :
    ((cursors (.ofScan found) requests).map Cursor.index).Pairwise (· ≤ ·) ∧
    (∀ c ∈ cursors (.ofScan found) requests,
      c.index ≤ found.tokens.length ∧ found.marks[c.index]? = some c.mark) ∧
    (∀ (i : Nat) (request : Request), requests[i]? = some request →
      ∃ before outcome after, (cursors (.ofScan found) requests)[i]? = some before ∧
        (session (.ofScan found) requests)[i]? = some (outcome, after) ∧
        (outcome = .ok .nowhere ↔ ∃ offset, request = .lookAt offset ∧
          before.index + offset < -(found.marks.length : Int)) ∧
        (∀ rule reply, request = .rule rule → outcome = .ok reply → before.index < after.index) ∧
        ∀ d, outcome = .error d → d.problem ≠ .stalled) ∧
    Grammar.expr = Grammar.exprWith Grammar.expr ∧
    ∀ area, Grammar.typeElement area = Grammar.typeElementWith area (Grammar.typeElement area) := by
  have htokens : ∀ c ∈ cursors (.ofScan found) requests,
      c.tokens = found.tokens ∧ c.finish = found.finish := by
    intro c hc
    obtain ⟨ts, hspan⟩ := spans_of_mem_cursors hc
    exact ⟨hspan.tokens_eq, hspan.finish⟩
  refine ⟨pairwise_index_cursors _ _, fun c hc => ?_, fun i request hi => ?_, Grammar.expr_eq,
    Grammar.typeElement_eq⟩
  · obtain ⟨hall, hfinish⟩ := htokens c hc
    rw [Scan.marks, ← hall, ← hfinish]
    exact ⟨c.index_le_length_tokens, c.getElem?_marks⟩
  · obtain ⟨before, hbefore, hrespond⟩ := exists_respond (.ofScan found) hi
    have hlength : (found.marks.length : Int) = before.tokens.length + 1 := by
      rw [(htokens before (List.mem_of_getElem? hbefore)).1, Scan.marks]
      simp
    refine ⟨before, _, _, hbefore, hrespond, ?_, ?_, fun d hd => ?_⟩
    · rw [hlength]
      exact respond_eq_nowhere_iff request before
    · rintro rule reply rfl hok
      exact index_lt_of_rule hok
    · exact ((answer_progress request before).of_error (answer_of_respond_error hd)).1

/-- The second atom fails at the end of the text, with its parenthesis and its name read. Seven
places back stands the first token, and eight places back there is nothing. -/
theorem session_safe_open_paren :
    ∃ found, scan "1 (f" 1 = .ok found ∧
      (cursors (.ofScan found) [.rule .atom, .rule .atom, .lookAt (-7), .lookAt (-8)]).map
        Cursor.index = [0, 1, 3, 3, 3] ∧
      ∃ after,
        (session (.ofScan found) [.rule .atom, .rule .atom, .lookAt (-7), .lookAt (-8)])[3]? =
          some (.ok .nowhere, after) := by
  have hscan : scan "1 (f" 1 = .ok
      ⟨[⟨.number "1", ⟨1, 1⟩⟩, ⟨.symbol .openParen, ⟨1, 3⟩⟩, ⟨.ident "f", ⟨1, 4⟩⟩], ⟨1, 5⟩⟩ := by
    decide +kernel
  refine ⟨_, hscan, rfl, ?_⟩
  obtain ⟨before, outcome, after, hbefore, hsession, hnowhere, _⟩ :=
    (session_safe
      ⟨[⟨.number "1", ⟨1, 1⟩⟩, ⟨.symbol .openParen, ⟨1, 3⟩⟩, ⟨.ident "f", ⟨1, 4⟩⟩], ⟨1, 5⟩⟩
      [.rule .atom, .rule .atom, .lookAt (-7), .lookAt (-8)]).2.2.1 3 (.lookAt (-8)) rfl
  have hindex : before.index = 3 := (congrArg Cursor.index (Option.some.inj hbefore)).symm
  have houtcome : outcome = .ok .nowhere := hnowhere.mpr ⟨-8, rfl, by rw [hindex]; decide⟩
  rw [houtcome] at hsession
  exact ⟨after, hsession⟩

end Reading

end Polyglot
