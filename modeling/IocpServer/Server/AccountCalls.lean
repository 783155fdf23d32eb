import IocpServer.Server.AccountManager

/-!
# Server — AccountCalls

Threads that register and log in at once, over a database library any of whose calls may fail.

* `Stage`: what a call knows of its statement at each phase, and when its answer is settled.
* `next_stage`: one step of a call.
* `Explained`: the threads as an object whose operations are atomic; `event_mirrors`, one event.
* `accounts_atomic`, `accounts_return`: the calls take place one at a time, and every one returns.
* `login_registered`: who logs in has registered.
-/

namespace IocpServer

open Statements DBManager Atomic

namespace AccountManager

/-! ### Stages of a call -/

/-- At a phase of `op`: its statement, and its answer once it is settled, which it is with the first
row or at the end of the query. -/
inductive Stage (full : Prop) (op : Operation) :
    Phase → Option (Statement AccountRow) → Option Answer → Prop where
  | prepare : Stage full op .prepare none none
  | bind {stmt : Nat} (before : List (List UInt8)) {rest : List (List UInt8)} {params : Params}
      (hargs : op.call.args = before ++ rest) (hb : Bound full before params) :
      Stage full op (.bind stmt (before.length + 1) rest) (some ⟨op.call.query, params, [], false⟩) none
  | step {stmt : Nat} {params : Params} (hb : Bound full op.call.args params) :
      Stage full op (.step stmt 0) (some ⟨op.call.query, params, [], false⟩) none
  | callback {stmt : Nat} {params : Params} (row : AccountRow) {userId password : List Byte}
      (hop : op = .authenticate userId password) (hb : Bound full op.call.args params) :
      Stage full op (.callback stmt 0) (some ⟨op.call.query, params, [row], false⟩)
        (some (.authenticated row.id))
  | again {stmt : Nat} {params : Params} (row : AccountRow) {userId password : List Byte}
      (hop : op = .authenticate userId password) (hb : Bound full op.call.args params) :
      Stage full op (.step stmt row.id) (some ⟨op.call.query, params, [row], false⟩)
        (some (.authenticated row.id))
  | finalize {stmt : Nat} {st : Statement AccountRow} {success : Bool} {result : Int} :
      Stage full op (.finalize stmt success result) (some st) (some (op.answer success result))
  | returned {success : Bool} {result : Int} :
      Stage full op (.returned success result) none (some (op.answer success result))

/-- How many more steps a call takes at most. -/
def left : Phase → Option Answer → Nat
  | .prepare, _ => 8
  | .bind _ _ args, _ => 5 + args.length
  | .step _ _, none => 4
  | .callback _ _, _ => 3
  | .step _ _, some _ => 2
  | .finalize _ _ _, _ => 1
  | .returned _ _, _ => 0

/-- A step leaves the table and the answer, or settles the answer. -/
inductive Settles (full : Prop) (op : Operation) (table : Option AccountStore) (ans : Option Answer) :
    Option AccountStore → Option Answer → Prop where
  | still : Settles full op table ans table ans
  | now {table' : Option AccountStore} {answer : Answer} (hans : ans = none)
      (h : Serves full table op answer table') : Settles full op table ans table' (some answer)

theorem Settles.elim {full : Prop} {op : Operation} {table table' : Option AccountStore}
    {ans ans' : Option Answer} (h : Settles full op table ans table' ans') :
    table' = table ∧ ans' = ans ∨
      ans = none ∧ ∃ answer, ans' = some answer ∧ Serves full table op answer table' := by
  cases h with
  | still => exact .inl ⟨rfl, rfl⟩
  | now hans h => exact .inr ⟨hans, _, rfl, h⟩

variable {σ ι : Type} {db : Library σ} {table : σ → Option AccountStore}
  {stmts : σ → Nat → Option (Statement AccountRow)} {full : Prop} {op : Operation} {phase : Phase}
  {st : Option (Statement AccountRow)} {ans : Option Answer} {s : σ}

theorem Stage.stmt_some (h : Stage full op phase st ans) {k : Nat} (hp : phase.stmt = some k) :
    ∃ st', st = some st' := by
  cases h with
  | prepare | returned => cases hp
  | bind | step | callback | again | finalize => exact ⟨_, rfl⟩

/-- A step of a call at this phase: where it leads, with what it leaves of the statements. -/
structure Turn (db : Library σ) (table : σ → Option AccountStore)
    (stmts : σ → Nat → Option (Statement AccountRow)) (full : Prop) (op : Operation) (phase : Phase)
    (ans : Option Answer) (s : σ) (phase' : Phase) (s' : σ) (st' : Option (Statement AccountRow))
    (ans' : Option Answer) : Prop where
  next : next db op.call phase s = some (phase', s')
  stage : Stage full op phase' st' ans'
  holds : ∀ {k}, phase'.stmt = some k → stmts s' k = st'
  frame : Frame phase.stmt phase'.stmt (stmts s) (stmts s')
  settles : Settles full op (table s) ans (table s') ans'
  left : left phase' ans' < left phase ans

theorem call_args_length (op : Operation) : op.call.args.length ≤ 2 := by
  cases op with
  | construct => exact Nat.zero_le 2
  | registerAccount userId password => exact le_rfl
  | authenticate userId password => exact le_rfl

/-- `Prepare`. -/
theorem prepare_turn (h : Documented accountsMeaning db table stmts) (s : σ) :
    ∃ phase' s' st' ans', Turn db table stmts (Reliable accountsMeaning db table stmts) op .prepare none
      s phase' s' st' ans' := by
  obtain ⟨s', htable, ⟨hnext, hstmts, hr⟩ | ⟨stmt, hnext, hfree, hstmts⟩⟩ :=
    prepare_spec h (call_query_mem op) s
  · refine ⟨_, s', none, some (op.answer false 0), hnext, .returned, nofun, ?_, .now rfl ?_, Nat.zero_lt_succ 7⟩
    · rw [hstmts]
      exact .same _
    · rw [htable]
      by_cases hf : Reliable accountsMeaning db table stmts
      · exact .inl (perform_unprepared (hr hf))
      · exact .inr ⟨hf, rfl, rfl⟩
  · refine ⟨_, s', some (.start op.call.query), none, hnext, .bind [] rfl bound_nil,
      fun hk => ?_, .start hfree hstmts, ?_, ?_⟩
    · cases hk
      rw [hstmts, Function.update_self]
    · rw [htable]
      exact .still
    · have hargs : op.call.args.length ≤ 2 := call_args_length op
      show 5 + op.call.args.length < 8
      omega

/-- `BindParameter`. -/
theorem bind_turn (h : Documented accountsMeaning db table stmts) {stmt : Nat}
    {before rest : List (List UInt8)} {params : Params} (hargs : op.call.args = before ++ rest)
    (hb : Bound (Reliable accountsMeaning db table stmts) before params)
    (hst : stmts s stmt = some ⟨op.call.query, params, [], false⟩) :
    ∃ phase' s' st' ans', Turn db table stmts (Reliable accountsMeaning db table stmts) op
      (.bind stmt (before.length + 1) rest) none s phase' s' st' ans' := by
  cases rest with
  | nil =>
    rw [List.append_nil] at hargs
    refine ⟨.step stmt 0, s, _, none, rfl, .step (hargs ▸ hb), fun hk => ?_, .same _, .still,
      Nat.lt_add_one 4⟩
    cases hk
    exact hst
  | cons value rest =>
    obtain ⟨s', params', hnext, htable, hstmts, hb'⟩ := bind_spec op.call h hst hb value rest
    refine ⟨_, s', _, none, hnext, .bind _ (by rw [hargs, List.append_assoc]; rfl) hb', fun hk => ?_,
      .keep hstmts, ?_, Nat.lt_add_one (5 + rest.length)⟩
    · cases hk
      rw [hstmts, Function.update_self]
    · rw [htable]
      exact .still

/-- `sqlite3_step` that does not return a row. -/
theorem finish_turn {stmt : Nat} {result : Int} {success : Bool} {s' : σ} {st : Statement AccountRow}
    (hnext : next db op.call (.step stmt result) s = some (.finalize stmt success result, s'))
    (hstmts : stmts s' = Function.update (stmts s) stmt (some st))
    (hsettles : Settles full op (table s) ans (table s') (some (op.answer success result))) :
    ∃ phase' s' st' ans', Turn db table stmts full op (.step stmt result) ans s phase' s' st' ans' := by
  refine ⟨_, s', some st, some (op.answer success result), hnext, .finalize, fun hk => ?_,
    .keep hstmts, hsettles, ?_⟩
  · cases hk
    rw [hstmts, Function.update_self]
  · cases ans with
    | none => show 1 < 4; omega
    | some answer => exact Nat.lt_add_one 1

/-- `sqlite3_step` for the first time. -/
theorem step_turn (h : Documented accountsMeaning db table stmts) (ht : TableSound (table s)) {stmt : Nat}
    {params : Params} (hb : Bound (Reliable accountsMeaning db table stmts) op.call.args params)
    (hst : stmts s stmt = some ⟨op.call.query, params, [], false⟩) :
    ∃ phase' s' st' ans', Turn db table stmts (Reliable accountsMeaning db table stmts) op
      (.step stmt 0) none s phase' s' st' ans' := by
  obtain ⟨code, s', hstep, ⟨rfl, htable, row, hsub, hstmts⟩ | ⟨rfl, hrows, he, hstmts⟩ |
    ⟨hrow, hdone, htable, hstmts⟩⟩ := h.step hst rfl
  · obtain ⟨⟨userId, password, hop⟩, -, hperform⟩ := serves_row ht hb hsub
    have hcallback : op.call.callback = some 0 := by
      rw [hop]
      rfl
    refine ⟨.callback stmt 0, s', _, some (.authenticated row.id), ?_, .callback row hop hb,
      fun hk => ?_, .keep hstmts, ?_, Nat.lt_add_one 3⟩
    · rw [next_step hstep, stepped_row hcallback]
    · cases hk
      rw [hstmts, Function.update_self]
      rfl
    · rw [htable]
      exact .now rfl (.inl hperform)
  · exact finish_turn ((next_step hstep).trans (by rw [stepped_done])) hstmts
      (.now rfl (serves_done hb (hrows rfl) he))
  · refine finish_turn ((next_step hstep).trans (by rw [stepped_error hrow hdone])) hstmts (.now rfl ?_)
    rw [htable]
    by_cases hf : Reliable accountsMeaning db table stmts
    · have hrows : accountsMeaning.rows (table s) op.call.query params = [] :=
        not_not.mp fun hne => hrow (hf.fetches hst rfl hstep rfl hne)
      have he : accountsMeaning.effect (table s) op.call.query params = none := by
        cases he : accountsMeaning.effect (table s) op.call.query params with
        | none => rfl
        | some t => exact absurd (hf.completes hst rfl hstep rfl hrows he) hdone
      exact .inl (serves_failed hb hf hrows he)
    · exact .inr ⟨hf, rfl, rfl⟩

/-- `sqlite3_step` behind a row: there is no other. -/
theorem again_turn (h : Documented accountsMeaning db table stmts) (ht : TableSound (table s))
    {stmt : Nat} {params : Params} {row : AccountRow} {userId password : List Byte}
    (hop : op = .authenticate userId password) (hb : Bound full op.call.args params)
    (hst : stmts s stmt = some ⟨op.call.query, params, [row], false⟩) :
    ∃ phase' s' st' ans', Turn db table stmts full op (.step stmt row.id) (some (.authenticated row.id))
      s phase' s' st' ans' := by
  obtain ⟨code, s', hstep, ⟨rfl, htable, row', hsub, hstmts⟩ | ⟨rfl, hrows, he, hstmts⟩ |
    ⟨hrow, hdone, htable, hstmts⟩⟩ := h.step hst rfl
  · have hlast : [row].Subperm (accountsMeaning.rows (table s) op.call.query params) :=
      (List.sublist_append_left [row] [row']).subperm.trans hsub
    obtain ⟨-, hrows, -⟩ := serves_row ht hb hlast
    rw [hrows] at hsub
    have hlen := hsub.length_le
    exact absurd hlen (by show ¬ 2 ≤ 1; omega)
  · subst hop
    refine finish_turn ((next_step hstep).trans (by rw [stepped_done])) hstmts ?_
    rw [← Option.some.inj (effect_select.symm.trans he)]
    exact .still
  · subst hop
    refine finish_turn ((next_step hstep).trans (by rw [stepped_error hrow hdone])) hstmts ?_
    rw [htable]
    exact .still

/-- **One step of a call.** -/
theorem next_stage (h : Documented accountsMeaning db table stmts)
    (hs : Stage (Reliable accountsMeaning db table stmts) op phase st ans)
    (hst : ∀ {k}, phase.stmt = some k → stmts s k = st) (ht : TableSound (table s))
    (hphase : ∀ success result, phase ≠ .returned success result) :
    ∃ phase' s' st' ans', Turn db table stmts (Reliable accountsMeaning db table stmts) op phase ans
      s phase' s' st' ans' := by
  cases hs with
  | prepare => exact prepare_turn h s
  | bind before hargs hb => exact bind_turn h hargs hb (hst rfl)
  | step hb => exact step_turn h ht hb (hst rfl)
  | @callback stmt params row userId password hop hb =>
    have hlive := hst (k := stmt) rfl
    have hcallback : op.call.callback = some 0 := by
      rw [hop]
      rfl
    have hcolumn : db.columnInt64 s stmt 0 = some (accountsMeaning.column row 0) :=
      h.columnInt64 0 hlive rfl (List.nil_append [row]).symm
    refine ⟨.step stmt row.id, s, _, _, ?_, .again row hop hb, fun hk => ?_, .same _, .still,
      Nat.lt_add_one 2⟩
    · simp only [DBManager.next, hcallback, Option.bind_eq_bind, Option.bind_some, hcolumn]
      rfl
    · cases hk
      exact hlive
  | again row hop hb => exact again_turn h ht hop hb (hst rfl)
  | @finalize stmt st success result =>
    obtain ⟨s', hnext, htable, hstmts⟩ := finalize_spec h (hst rfl) success result
    refine ⟨_, s', none, _, hnext, .returned, fun hk => ?_, .finish hstmts, ?_, Nat.lt_add_one 0⟩
    · cases hk
    · rw [htable]
      exact .still
  | returned => exact absurd rfl (hphase _ _)

/-! ### Threads side by side -/

/-- The statement a thread holds. -/
def held (call : Option (Operation × Phase)) : Option Nat := call.bind (·.2.stmt)

/-- A call, and what it is of an atomic object. -/
inductive Related (full : Prop) (stmts : Nat → Option (Statement AccountRow)) :
    Option (Operation × Phase) → Option (Operation × Option Answer) → Prop where
  | idle : Related full stmts none none
  | busy {o : Operation} {p : Phase} {x : Option (Statement AccountRow)} {a : Option Answer}
      (hs : Stage full o p x a) (hst : ∀ {k}, p.stmt = some k → stmts k = x) :
      Related full stmts (some (o, p)) (some (o, a))

/-- How many more steps it takes at most. -/
def leftOf : Option (Operation × Phase) → Option (Operation × Option Answer) → Nat
  | some (_, phase), some (_, ans) => left phase ans
  | _, _ => 0

/-- **The threads as an atomic object.**  No two hold one statement, and every statement is held. -/
structure Explained (table : σ → Option AccountStore) (stmts : σ → Nat → Option (Statement AccountRow))
    (full : Prop) (w : Threads σ ι) (v : Object ι (Option AccountStore) Operation Answer) : Prop where
  contents : v.contents = table w.db
  sound : TableSound (table w.db)
  calls : ∀ t, Related full (stmts w.db) (w.calls t) (v.calls t)
  apart : ∀ {t t' k}, held (w.calls t) = some k → held (w.calls t') = some k → t = t'
  only : ∀ {k st}, stmts w.db k = some st → ∃ t, held (w.calls t) = some k

/-- A statement that is held is there. -/
theorem Related.live {stmts : Nat → Option (Statement AccountRow)} {call : Option (Operation × Phase)}
    {call' : Option (Operation × Option Answer)} (h : Related full stmts call call') {k : Nat}
    (hk : held call = some k) : ∃ st, stmts k = some st := by
  cases h with
  | idle => cases hk
  | busy hs hst =>
    obtain ⟨st', hst'⟩ := hs.stmt_some hk
    exact ⟨st', (hst hk).trans hst'⟩

theorem Related.congr {stmts stmts' : Nat → Option (Statement AccountRow)}
    {call : Option (Operation × Phase)} {call' : Option (Operation × Option Answer)}
    (h : Related full stmts call call') (he : ∀ {k}, held call = some k → stmts' k = stmts k) :
    Related full stmts' call call' := by
  cases h with
  | idle => exact .idle
  | busy hs hst => exact .busy hs fun hk => (he hk).trans (hst hk)

theorem explained_start (htable : table s = none) (hstmts : stmts s = fun _ => none) :
    Explained (ι := ι) table stmts full (start s) (idle none) where
  contents := htable.symm
  sound a ha := by cases htable.symm.trans ha
  calls _ := .idle
  apart h _ := by cases h
  only h := by cases (congrFun hstmts _).symm.trans h

variable [DecidableEq ι] {w w' : Threads σ ι} {v : Object ι (Option AccountStore) Operation Answer} {t : ι}

/-- **One thread moves on.** -/
theorem Explained.put (h : Explained table stmts full w v) {call : Option (Operation × Phase)}
    {call' : Option (Operation × Option Answer)} {s' : σ}
    (hframe : Frame (held (w.calls t)) (held call) (stmts w.db) (stmts s'))
    (hrel : Related full (stmts s') call call') (hsound : TableSound (table s')) :
    Explained table stmts full ⟨s', Function.update w.calls t call⟩
      ⟨table s', Function.update v.calls t call'⟩ := by
  -- what another thread holds is neither the old statement of this one nor its new one
  have hother : ∀ {u k}, u ≠ t → held (w.calls u) = some k →
      held (w.calls t) ≠ some k ∧ held call ≠ some k := by
    intro u k hu hk
    have hold : held (w.calls t) ≠ some k := fun hold => hu (h.apart hk hold)
    refine ⟨hold, fun hnew => ?_⟩
    rcases hframe.opened hnew with hold' | hnone
    · exact hold hold'
    · obtain ⟨st, hst⟩ := (h.calls u).live hk
      cases hnone.symm.trans hst
  refine ⟨rfl, hsound, fun u => ?_, fun {u u' k} hu hu' => ?_, fun {k st} hst => ?_⟩
  · by_cases e : u = t
    · subst e
      show Related full (stmts s') (Function.update w.calls u call u) (Function.update v.calls u call' u)
      rw [Function.update_self, Function.update_self]
      exact hrel
    · show Related full (stmts s') (Function.update w.calls t call u) (Function.update v.calls t call' u)
      rw [Function.update_of_ne e, Function.update_of_ne e]
      exact (h.calls u).congr fun hk => hframe.other (hother e hk).1 (hother e hk).2
  · replace hu : held (Function.update w.calls t call u) = some k := hu
    replace hu' : held (Function.update w.calls t call u') = some k := hu'
    by_cases e : u = t <;> by_cases e' : u' = t
    · exact e.trans e'.symm
    · rw [e, Function.update_self] at hu
      rw [Function.update_of_ne e'] at hu'
      exact absurd hu (hother e' hu').2
    · rw [Function.update_of_ne e] at hu
      rw [e', Function.update_self] at hu'
      exact absurd hu' (hother e hu).2
    · rw [Function.update_of_ne e] at hu
      rw [Function.update_of_ne e'] at hu'
      exact h.apart hu hu'
  · replace hst : stmts s' k = some st := hst
    by_cases hnew : held call = some k
    · refine ⟨t, ?_⟩
      show held (Function.update w.calls t call t) = some k
      rwa [Function.update_self]
    · by_cases hold : held (w.calls t) = some k
      · cases ((hframe.closed hold).resolve_left hnew).symm.trans hst
      · rw [hframe.other hold hnew] at hst
        obtain ⟨u, hu⟩ := h.only hst
        have e : u ≠ t := by
          rintro rfl
          exact hold hu
        refine ⟨u, ?_⟩
        show held (Function.update w.calls t call u) = some k
        rwa [Function.update_of_ne e]

/-- How often a thread has called. -/
def called (t : ι) : Event ι → Nat
  | .call u _ => if u = t then 1 else 0
  | .next _ => 0
  | .ret _ _ => 0

/-- How many steps of its calls it has taken. -/
def spent (t : ι) : Event ι → Nat
  | .next u => if u = t then 1 else 0
  | .call _ _ => 0
  | .ret _ _ => 0

/-- A step of a call is paid for. -/
theorem paid {u : ι} {call : Option (Operation × Phase)} {call' : Option (Operation × Option Answer)}
    {spend due : Nat} (hself : u = t → leftOf call call' + spend ≤ leftOf (w.calls t) (v.calls t) + due)
    (hother : u ≠ t → spend = 0) :
    leftOf (Function.update w.calls t call u) (Function.update v.calls t call' u) + spend ≤
      leftOf (w.calls u) (v.calls u) + due := by
  by_cases e : u = t
  · subst e
    rw [Function.update_self, Function.update_self]
    exact hself rfl
  · rw [Function.update_of_ne e, Function.update_of_ne e, hother e]
    exact Nat.le_add_right _ _

/-- Who calls is not inside a call. -/
theorem call_elim {o : Operation} (h : step db w (.call t o) = some w') :
    w.calls t = none ∧ w' = { w with calls := Function.update w.calls t (some (o, .prepare)) } := by
  cases hc : w.calls t with
  | some c => simp [step, hc] at h
  | none =>
    simp only [step, hc, Option.some.injEq] at h
    exact ⟨rfl, h.symm⟩

/-- Who goes on takes a step of its call. -/
theorem next_elim (h : step db w (.next t) = some w') :
    ∃ o p p' s', w.calls t = some (o, p) ∧ next db o.call p w.db = some (p', s') ∧
      w' = ⟨s', Function.update w.calls t (some (o, p'))⟩ := by
  cases hc : w.calls t with
  | none => simp [step, hc] at h
  | some c =>
    obtain ⟨o, p⟩ := c
    simp only [step, hc, Option.map_eq_some_iff] at h
    obtain ⟨⟨p', s'⟩, hnext, rfl⟩ := h
    exact ⟨o, p, p', s', rfl, hnext, rfl⟩

/-- Who returns has got to the end of its call. -/
theorem ret_elim {answer : Answer} (h : step db w (.ret t answer) = some w') :
    ∃ op success result, w.calls t = some (op, .returned success result) ∧
      op.answer success result = answer ∧ w' = { w with calls := Function.update w.calls t none } := by
  cases hc : w.calls t with
  | none => simp [step, hc] at h
  | some c =>
    obtain ⟨op, phase⟩ := c
    cases phase with
    | prepare | bind | step | callback | finalize => simp [step, hc] at h
    | returned success result =>
      simp only [step, hc, Option.ite_none_right_eq_some, Option.some.injEq] at h
      exact ⟨op, success, result, rfl, h.1, h.2.symm⟩

theorem Related.idle_elim {stmts : Nat → Option (Statement AccountRow)}
    {call' : Option (Operation × Option Answer)} (h : Related full stmts none call') : call' = none := by
  cases h
  rfl

theorem Related.busy_elim {stmts : Nat → Option (Statement AccountRow)}
    {call' : Option (Operation × Option Answer)} (h : Related full stmts (some (op, phase)) call') :
    ∃ st ans, call' = some (op, ans) ∧ Stage full op phase st ans ∧
      ∀ {k}, phase.stmt = some k → stmts k = st := by
  cases h with
  | busy hs hst => exact ⟨_, _, rfl, hs, hst⟩

/-- What a step settles is a move of the object, or none. -/
theorem Settles.moves {table table' : Option AccountStore} {ans' : Option Answer}
    (h : Settles full op table ans table' ans') (ht : TableSound table) (hcontents : v.contents = table)
    (hv : v.calls t = some (op, ans)) :
    TableSound table' ∧
      Moves (Serves full) v [] ⟨table', Function.update v.calls t (some (op, ans'))⟩ := by
  rcases h.elim with ⟨rfl, rfl⟩ | ⟨rfl, answer, rfl, hserves⟩
  · have hsame : (⟨table', Function.update v.calls t (some (op, ans'))⟩ :
        Object ι (Option AccountStore) Operation Answer) = v := by
      rw [← hcontents, ← hv, Function.update_eq_self]
    refine ⟨ht, ?_⟩
    rw [hsame]
    exact .refl
  · exact ⟨hserves.sound ht, .act .refl hv (hcontents ▸ hserves)⟩

/-- An event is what an atomic object does, and its steps are paid for. -/
def Mirrors (table : σ → Option AccountStore) (stmts : σ → Nat → Option (Statement AccountRow))
    (full : Prop) (w : Threads σ ι) (v : Object ι (Option AccountStore) Operation Answer) (e : Event ι)
    (w' : Threads σ ι) : Prop :=
  ∃ v', Moves (Serves full) v (shown e) v' ∧ Explained table stmts full w' v' ∧
    ∀ u, leftOf (w'.calls u) (v'.calls u) + spent u e ≤
      leftOf (w.calls u) (v.calls u) + 8 * called u e

theorem call_mirrors (hw : Explained table stmts full w v) {o : Operation}
    (he : step db w (.call t o) = some w') : Mirrors table stmts full w v (.call t o) w' := by
  obtain ⟨hc, rfl⟩ := call_elim he
  have hv : v.calls t = none := (hc ▸ hw.calls t).idle_elim
  refine ⟨_, .call (t := t) o .refl hv, ?_, fun u => paid (fun e => ?_) fun _ => rfl⟩
  · rw [hw.contents]
    refine hw.put ?_ (.busy .prepare nofun) hw.sound
    rw [hc]
    exact .same none
  · subst e
    rw [hc, hv]
    simp [called, spent, leftOf, left]

theorem next_mirrors (h : Documented accountsMeaning db table stmts)
    (hw : Explained table stmts (Reliable accountsMeaning db table stmts) w v)
    (he : step db w (.next t) = some w') :
    Mirrors table stmts (Reliable accountsMeaning db table stmts) w v (.next t) w' := by
  obtain ⟨o, p, p', s', hc, hnext, rfl⟩ := next_elim he
  obtain ⟨st, ans, hv, hs, hst⟩ := (hc ▸ hw.calls t).busy_elim
  have hphase : ∀ success result, p ≠ .returned success result := by
    rintro success result rfl
    cases hnext
  obtain ⟨p'', s'', st', ans', hturn⟩ := next_stage h hs hst hw.sound hphase
  obtain ⟨rfl, rfl⟩ := Prod.mk.inj (Option.some.inj (hturn.next.symm.trans hnext))
  obtain ⟨hsound, hmoves⟩ := hturn.settles.moves hw.sound hw.contents hv
  refine ⟨_, hmoves, hw.put ?_ (.busy hturn.stage hturn.holds) hsound, fun u => paid (fun e => ?_)
    fun hu => ?_⟩
  · rw [hc]
    exact hturn.frame
  · subst e
    have hleft := hturn.left
    rw [hc, hv]
    simp only [spent, called, leftOf, if_true]
    omega
  · show (if t = u then 1 else 0) = 0
    rw [if_neg (Ne.symm hu)]

theorem ret_mirrors (hw : Explained table stmts full w v) {answer : Answer}
    (he : step db w (.ret t answer) = some w') :
    Mirrors table stmts full w v (.ret t answer) w' := by
  obtain ⟨o, success, result, hc, rfl, rfl⟩ := ret_elim he
  obtain ⟨st, ans, hv, hs, -⟩ := (hc ▸ hw.calls t).busy_elim
  cases hs with
  | returned =>
    refine ⟨_, .ret (t := t) .refl hv, ?_, fun u => paid (fun e => ?_) fun _ => rfl⟩
    · rw [hw.contents]
      refine hw.put ?_ .idle hw.sound
      rw [hc]
      exact .same none
    · subst e
      exact Nat.zero_le _

/-- **One event** is what an atomic object does. -/
theorem event_mirrors (h : Documented accountsMeaning db table stmts)
    (hw : Explained table stmts (Reliable accountsMeaning db table stmts) w v) {e : Event ι}
    (he : step db w e = some w') :
    Mirrors table stmts (Reliable accountsMeaning db table stmts) w v e w' := by
  cases e with
  | call t op => exact call_mirrors hw he
  | next t => exact next_mirrors h hw he
  | ret t answer => exact ret_mirrors hw he

/-! ### Whole runs -/

variable {es : List (Event ι)}

/-- Every run is one of an atomic object, and no call takes more than 8 steps. -/
theorem runs_explained (h : Documented accountsMeaning db table stmts) (htable : table s = none)
    (hstmts : stmts s = fun _ => none) (r : Runs (step db) Always (start s) es w) :
    ∃ v, Moves (Serves (Reliable accountsMeaning db table stmts)) (idle none) (es.flatMap shown) v ∧
      Explained table stmts (Reliable accountsMeaning db table stmts) w v ∧
      ∀ u, leftOf (w.calls u) (v.calls u) + (es.map (spent u)).sum ≤ 8 * (es.map (called u)).sum := by
  refine linearizable (R := fun es w v =>
    Explained table stmts (Reliable accountsMeaning db table stmts) w v ∧
      ∀ u, leftOf (w.calls u) (v.calls u) + (es.map (spent u)).sum ≤ 8 * (es.map (called u)).sum) r
    ⟨explained_start htable hstmts, fun u => Nat.zero_le _⟩ ?_
  rintro es a e b v ⟨hv, hpaid⟩ - he
  obtain ⟨v', hmoves, hv', hpaid'⟩ := event_mirrors h hv he
  refine ⟨v', hmoves, hv', fun u => ?_⟩
  have h₁ := hpaid u
  have h₂ := hpaid' u
  simp only [List.map_append, List.sum_append, List.map_cons, List.map_nil, List.sum_cons, List.sum_nil,
    Nat.add_zero]
  omega

/-- The table is created; then one thread registers while another logs in. -/
def sideBySide : List (Event Nat) :=
  [.call 0 .construct, .next 0, .next 0, .next 0, .next 0, .ret 0 .constructed,
    .call 0 (.registerAccount [1] [2]), .call 1 (.authenticate [1] [2]), .next 0, .next 1, .next 0,
    .next 1, .next 0, .next 1, .next 0, .next 1, .next 0, .next 1, .next 1, .next 0,
    .ret 0 (.registered true), .next 1, .next 1]

theorem sideBySide_runs : ∃ w, Runs (step (Memory.library accountsMeaning)) Always (start ⟨none, []⟩)
    sideBySide w ∧ w.calls 1 = some (.authenticate [1] [2], .returned true 1) := by
  have h : (exec (step (Memory.library accountsMeaning)) (start (ι := Nat) ⟨none, []⟩) sideBySide).map
      (fun w => w.calls 1) = some (some (.authenticate [1] [2], .returned true 1)) := by decide +kernel
  obtain ⟨w, hw, hcalls⟩ := Option.map_eq_some_iff.mp h
  exact ⟨w, Runs.of_exec hw fun _ _ _ => trivial, hcalls⟩

/-- **Every call returns, whatever fails.**  A thread inside a call can take its next step, in at most
8 of which the call returns; so no call of the library is one it has no result for.  The statements
open are those of the calls under way, one each. -/
theorem accounts_return (h : Documented accountsMeaning db table stmts) (htable : table s = none)
    (hstmts : stmts s = fun _ => none) (r : Runs (step db) Always (start s) es w) :
    (∀ t op phase, w.calls t = some (op, phase) →
      (∃ success result, phase = .returned success result) ∨ ∃ w', step db w (.next t) = some w') ∧
    (∀ t, (es.map (spent t)).sum ≤ 8 * (es.map (called t)).sum) ∧
    (∀ t k, held (w.calls t) = some k → ∃ st, stmts w.db k = some st) ∧
    ∀ k st, stmts w.db k = some st → ∃! t, held (w.calls t) = some k := by
  obtain ⟨v, -, hv, hpaid⟩ := runs_explained h htable hstmts r
  refine ⟨fun t op phase hc => ?_, fun t => ?_, fun t k hk => (hv.calls t).live hk, fun k st hst => ?_⟩
  · obtain ⟨st, ans, -, hs, hst⟩ := (hc ▸ hv.calls t).busy_elim
    by_cases hphase : ∃ success result, phase = .returned success result
    · exact .inl hphase
    · obtain ⟨phase', s', st', ans', hturn⟩ := next_stage h hs hst hv.sound
        fun success result e => hphase ⟨success, result, e⟩
      refine .inr ⟨⟨s', Function.update w.calls t (some (op, phase'))⟩, ?_⟩
      simp only [step, hc, hturn.next, Option.map_some]
  · exact Nat.le_trans (Nat.le_add_left _ _) (hpaid t)
  · obtain ⟨t, ht⟩ := hv.only hst
    exact ⟨t, ht, fun u hu => hv.apart hu ht⟩

/-- Thread 1 has taken its 8 steps in `sideBySide`, and its statement is closed. -/
theorem accounts_return_meet : ∃ w,
    Runs (step (Memory.library accountsMeaning)) Always (start ⟨none, []⟩) sideBySide w ∧
      (sideBySide.map (spent 1)).sum = 8 ∧ (sideBySide.map (spent 1)).sum ≤
        8 * (sideBySide.map (called 1)).sum := by
  obtain ⟨w, r, -⟩ := sideBySide_runs
  obtain ⟨-, hspent, -⟩ := accounts_return (Memory.reliable accountsMeaning).toDocumented rfl rfl r
  exact ⟨w, r, by decide, hspent 1⟩

/-! ### Logins -/

/-- The rows, if there is a table. -/
def rowsOf (table : Option AccountStore) : List AccountRow := (table.map (·.rows)).getD []

section Serves

variable {contents contents' : Option AccountStore} {answer : Answer}

/-- The rows stay, and those that are new are registered. -/
structure Appends (op : Operation) (contents contents' : Option AccountStore) : Prop where
  stay : ∀ row ∈ rowsOf contents, row ∈ rowsOf contents'
  new : ∀ row ∈ rowsOf contents', row ∈ rowsOf contents ∨ ∃ userId password,
    op = .registerAccount userId password ∧ row.username = cStr userId ∧ row.password = cStr password

theorem Appends.same (h : rowsOf contents' = rowsOf contents) : Appends op contents contents' where
  stay _ hrow := h ▸ hrow
  new _ hrow := .inl (h ▸ hrow)

/-- **An operation only appends rows.** -/
theorem Serves.appends (hs : Serves full contents op answer contents') :
    Appends op contents contents' := by
  rcases hs with hs | ⟨-, -, rfl⟩
  · cases op with
    | construct =>
      cases hs
      cases contents with
      | none => exact .same rfl
      | some a => exact .same rfl
    | authenticate userId password =>
      cases contents with
      | none => cases hs; exact .same rfl
      | some a => cases hs; exact .same rfl
    | registerAccount userId password =>
      cases contents with
      | none => cases hs; exact .same rfl
      | some a =>
        rcases hr : a.registerAccount (cStr userId) (cStr password) with ⟨success, a'⟩
        simp only [Operation.perform, hr, Prod.mk.injEq] at hs
        obtain ⟨-, rfl⟩ := hs
        rcases registerAccount_cases hr with ⟨-, rfl⟩ | ⟨-, -, rfl⟩
        · exact .same rfl
        · refine ⟨fun row h => List.mem_append_left _ h, fun row h => ?_⟩
          rcases List.mem_append.mp h with h | h
          · exact .inl h
          · rw [List.mem_singleton.mp h]
            exact .inr ⟨userId, password, rfl, rfl, rfl⟩
  · exact .same rfl

theorem lastKey_mem {rows : List AccountRow} {k : Int} (h : rows.foldl (fun _ row => row.id) 0 = k)
    (hk : k ≠ 0) : ∃ row ∈ rows, row.id = k := by
  induction rows using List.reverseRecOn with
  | nil => exact absurd h.symm hk
  | append_singleton rows row _ =>
    rw [List.foldl_append] at h
    exact ⟨row, List.mem_append_right _ List.mem_cons_self, h⟩

/-- **A login that is answered with a key** finds the row. -/
theorem Serves.login {userId password : List Byte} {k : Int}
    (hs : Serves full contents (.authenticate userId password) (.authenticated k) contents')
    (hk : k ≠ 0) :
    ∃ row ∈ rowsOf contents', row.username = cStr userId ∧ row.password = cStr password ∧
      row.id = k := by
  rcases hs with hs | ⟨-, ha, -⟩
  · cases contents with
    | none => cases hs; exact absurd rfl hk
    | some a =>
      cases hs
      have hkey : (selected a (cStr userId) (cStr password)).foldl (fun _ row => row.id) 0 ≠ 0 := hk
      obtain ⟨row, hrow, hid⟩ := lastKey_mem rfl hkey
      obtain ⟨hmem, hsel⟩ := List.mem_filter.mp hrow
      rw [Bool.and_eq_true, beq_iff_eq, beq_iff_eq] at hsel
      exact ⟨row, hmem, hsel.1, hsel.2, hid⟩
  · cases ha
    exact absurd rfl hk

end Serves

/-- What an object knows of where its rows and its keys come from. -/
structure Vouched (seen : List (Seen ι Operation Answer))
    (v : Object ι (Option AccountStore) Operation Answer) : Prop where
  rows : ∀ row ∈ rowsOf v.contents, ∃ t userId password,
    Seen.call t (.registerAccount userId password) ∈ seen ∧ row.username = cStr userId ∧
      row.password = cStr password
  calls : ∀ {t op ans}, v.calls t = some (op, ans) → .call t op ∈ seen
  logins : ∀ {t userId password k},
    v.calls t = some (.authenticate userId password, some (.authenticated k)) → k ≠ 0 →
      ∃ row ∈ rowsOf v.contents, row.username = cStr userId ∧ row.password = cStr password ∧ row.id = k

/-- What another entry of a thread is. -/
theorem update_elim {α : Type} {f : ι → Option α} {t u : ι} {x : Option α} {y : α}
    (h : Function.update f t x u = some y) : u = t ∧ x = some y ∨ f u = some y := by
  by_cases e : u = t
  · subst e
    rw [Function.update_self] at h
    exact .inl ⟨rfl, h⟩
  · rw [Function.update_of_ne e] at h
    exact .inr h

omit [DecidableEq ι] in
/-- Where the rows come from is not forgotten. -/
theorem Vouched.rows_more {seen : List (Seen ι Operation Answer)}
    {v : Object ι (Option AccountStore) Operation Answer} (h : Vouched seen v)
    (more : List (Seen ι Operation Answer)) : ∀ row ∈ rowsOf v.contents, ∃ t userId password,
      Seen.call t (.registerAccount userId password) ∈ seen ++ more ∧ row.username = cStr userId ∧
        row.password = cStr password := by
  intro row hrow
  obtain ⟨t, userId, password, hmem, hfrom⟩ := h.rows row hrow
  exact ⟨t, userId, password, List.mem_append_left _ hmem, hfrom⟩

/-- **Every move of an object**: a new row is that of a call, and a key that of a row. -/
theorem vouched {seen : List (Seen ι Operation Answer)}
    {u v : Object ι (Option AccountStore) Operation Answer} (hm : Moves (Serves full) u seen v)
    (hu : u = idle none) : Vouched seen v := by
  refine hm.invariant (I := Vouched) ?_ ?_ ?_ ?_
  · subst hu
    exact ⟨fun row h => absurd h List.not_mem_nil, fun h => (by cases h), fun h => (by cases h)⟩
  · intro seen v t op hv ht
    refine ⟨hv.rows_more _, fun {u o ans} hc => ?_, fun {u _ _ k} hc hk => ?_⟩
    · rcases update_elim hc with ⟨rfl, he⟩ | hc
      · cases he
        exact List.mem_append_right _ List.mem_cons_self
      · exact List.mem_append_left _ (hv.calls hc)
    · rcases update_elim hc with ⟨rfl, he⟩ | hc
      · cases he
      · exact hv.logins hc hk
  · intro seen v t op answer contents hv ht hs
    refine ⟨fun row hrow => ?_, fun {u o ans} hc => ?_, fun {u _ _ k} hc hk => ?_⟩
    · rcases hs.appends.new row hrow with hrow | ⟨userId, password, rfl, hnew⟩
      · exact hv.rows row hrow
      · exact ⟨t, userId, password, hv.calls ht, hnew⟩
    · rcases update_elim hc with ⟨rfl, he⟩ | hc
      · cases he
        exact hv.calls ht
      · exact hv.calls hc
    · rcases update_elim hc with ⟨rfl, he⟩ | hc
      · cases he
        exact hs.login hk
      · obtain ⟨row, hrow, hfound⟩ := hv.logins hc hk
        exact ⟨row, hs.appends.stay row hrow, hfound⟩
  · intro seen v t op answer hv ht
    refine ⟨hv.rows_more _, fun {u o ans} hc => ?_, fun {u _ _ k} hc hk => ?_⟩
    · rcases update_elim hc with ⟨rfl, he⟩ | hc
      · cases he
      · exact List.mem_append_left _ (hv.calls hc)
    · rcases update_elim hc with ⟨rfl, he⟩ | hc
      · cases he
      · exact hv.logins hc hk

/-- Rows stay. -/
theorem rows_stay {seen : List (Seen ι Operation Answer)}
    {u v : Object ι (Option AccountStore) Operation Answer} (hm : Moves (Serves full) u seen v) :
    ∀ row ∈ rowsOf u.contents, row ∈ rowsOf v.contents := by
  refine hm.invariant (I := fun _ v => ∀ row ∈ rowsOf u.contents, row ∈ rowsOf v.contents)
    (fun row h => h) (fun _ h _ => h) (fun h _ hs row hrow => hs.appends.stay row (h row hrow)) (fun h _ => h)

omit [DecidableEq ι] in
/-- A login that returns a key has found its row. -/
theorem Explained.login {seen : List (Seen ι Operation Answer)} (h : Explained table stmts full w v)
    (hv : Vouched seen v) {userId password : List Byte} {success : Bool} {k : Int}
    (hc : w.calls t = some (.authenticate userId password, .returned success k)) (hk : k ≠ 0) :
    ∃ row ∈ rowsOf v.contents, row.username = cStr userId ∧ row.password = cStr password ∧
      row.id = k := by
  obtain ⟨st, ans, hcall, hs, -⟩ := (hc ▸ h.calls t).busy_elim
  cases hs with
  | returned => exact hv.logins hcall hk

/-- Rows with one name, or with one key, are one. -/
theorem Sound.same {a : AccountStore} (ha : Sound a) {row row' : AccountRow} (h : row ∈ a.rows)
    (h' : row' ∈ a.rows) :
    (row.username = row'.username → row = row') ∧ (row.id = row'.id → row = row') :=
  ⟨List.inj_on_of_nodup_map ha.names h h', List.inj_on_of_nodup_map ha.keys h h'⟩

omit [DecidableEq ι] in
theorem shown_call {u : ι} {op : Operation} (h : Seen.call u op ∈ es.flatMap shown) :
    Event.call u op ∈ es := by
  obtain ⟨e, he, hmem⟩ := List.mem_flatMap.mp h
  cases e with
  | call t' op' =>
    cases List.mem_singleton.mp hmem
    exact he
  | next t' => exact absurd hmem List.not_mem_nil
  | ret t' answer => cases List.mem_singleton.mp hmem

/-- **Who logs in has registered, whatever fails.**  A login that returns a key gives the name and the
password of a call of `RegisterAccount` before; and every login from then on that returns a key gets
that key exactly when it gives that name, which it can only do with that password. -/
theorem login_registered (h : Documented accountsMeaning db table stmts) (htable : table s = none)
    (hstmts : stmts s = fun _ => none) {es₁ es₂ : List (Event ι)} {w₁ w₂ : Threads σ ι}
    (r₁ : Runs (step db) Always (start s) es₁ w₁) (r₂ : Runs (step db) Always w₁ es₂ w₂)
    {userId password : List Byte} {success : Bool} {k : Int}
    (hlogin : w₁.calls t = some (.authenticate userId password, .returned success k)) (hk : k ≠ 0) :
    (∃ t' userId' password', Event.call t' (.registerAccount userId' password') ∈ es₁ ∧
      cStr userId' = cStr userId ∧ cStr password' = cStr password) ∧
    ∀ t' userId' password' success' k',
      w₂.calls t' = some (.authenticate userId' password', .returned success' k') → k' ≠ 0 →
        (cStr userId' = cStr userId ↔ k' = k) ∧
          (cStr userId' = cStr userId → cStr password' = cStr password) := by
  obtain ⟨v₁, hmoves₁, hv₁, -⟩ := runs_explained h htable hstmts r₁
  have hvouched₁ := vouched hmoves₁ rfl
  obtain ⟨row, hrow, hname, hpassword, hid⟩ := hv₁.login hvouched₁ hlogin hk
  refine ⟨?_, fun t' userId' password' success' k' hlogin' hk' => ?_⟩
  · obtain ⟨t', userId', password', hmem, hname', hpassword'⟩ := hvouched₁.rows row hrow
    exact ⟨t', userId', password', shown_call hmem, hname'.symm.trans hname,
      hpassword'.symm.trans hpassword⟩
  · obtain ⟨v₂, hmoves₂, hv₂⟩ := linearizable (R := fun _ w v =>
      Explained table stmts (Reliable accountsMeaning db table stmts) w v) r₂ hv₁
      fun hv _ he => by
        obtain ⟨v', hmoves, hv', -⟩ := event_mirrors h hv he
        exact ⟨v', hmoves, hv'⟩
    obtain ⟨row', hrow', hname', hpassword', hid'⟩ :=
      hv₂.login (vouched (hmoves₁.trans hmoves₂) rfl) hlogin' hk'
    have hstay := rows_stay hmoves₂ row hrow
    -- both rows are in one table
    rw [hv₂.contents] at hrow' hstay
    cases htable₂ : table w₂.db with
    | none =>
      rw [htable₂] at hrow'
      exact absurd hrow' List.not_mem_nil
    | some a =>
      rw [htable₂] at hrow' hstay
      have hsame := (hv₂.sound a htable₂).same hrow' hstay
      refine ⟨⟨fun he => ?_, fun he => ?_⟩, fun he => ?_⟩
      · rw [← hid', ← hid, hsame.1 (hname'.trans (he.trans hname.symm))]
      · rw [← hname', ← hname, hsame.2 (hid'.trans (he.trans hid.symm))]
      · rw [← hpassword', ← hpassword, hsame.1 (hname'.trans (he.trans hname.symm))]

/-- In `sideBySide` thread 1 has logged in. -/
theorem login_registered_meet : ∃ t userId password,
    Event.call t (.registerAccount userId password) ∈ sideBySide ∧ cStr userId = [1] ∧
      cStr password = [2] := by
  obtain ⟨w, r, hcalls⟩ := sideBySide_runs
  exact (login_registered (Memory.reliable accountsMeaning).toDocumented rfl rfl r .refl hcalls
    (by decide)).1

end AccountManager

end IocpServer
