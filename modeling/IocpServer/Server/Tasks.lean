import IocpServer.Server.Pinned

/-!
# Server — Tasks

The tasks that `OnRecv` posts and the sessions they run on.  A task captures the raw pointer of its
session, and holds no reference to it: it runs on whatever session is in the slot then.

* `Served`: the engine, and the task that each thread is executing.
* `executed_on_own`: as long as no slot is pushed under a task that is queued or executed, every task
  runs on the session that received its packet.
* `logs_in_entered`: as long as `DisconnectSession` keeps away from a session whose login or logout is
  queued or executed, and `OnRecv` posts none behind it, `LogInSession` and `LogOutSession` find in
  their entry the handle they have been given.
-/

namespace IocpServer

/-- `LogInSession` or `LogOutSession` is called. -/
def TaskKind.logs : TaskKind → Bool
  | .login | .logout => true
  | _ => false

/-- On the way to `sessionPtrs_[idx]->accountId_`. -/
def Instr.logs : Instr → Bool
  | .execute t => t.kind.logs
  | .logIn _ | .logOut _ | .setAccountId _ _ => true
  | _ => false

/-- `LogInSession` or `LogOutSession` has been given another handle than `h`. -/
def Instr.strays (h : Nat) : Instr → Bool
  | .setAccountId _ handle => handle != h
  | _ => false

def Instr.executes : Instr → Bool
  | .execute _ => true
  | _ => false

attribute [simp] Instr.logs.eq_1 Instr.logs.eq_2 Instr.logs.eq_3 Instr.logs.eq_4 Instr.logs.eq_5
  Instr.strays.eq_1 Instr.strays.eq_2 Instr.executes.eq_1 Instr.executes.eq_2

theorem Instr.strays_le (h : Nat) (C : Multiset Instr) :
    num (Instr.strays h) C ≤ num Instr.logs C :=
  num_le (fun i hi => by cases i <;> simp_all) C

/-- Only the start of a task leaves an `Execute`. -/
theorem SeatStep.executes {w : Nat} {v v' : Seat} {a : Act} {is is' : List Instr}
    (hs : SeatStep w v a is is' v') (ha : ∀ t, a ≠ .task t) : is'.countP Instr.executes = 0 := by
  cases hs with
  | task => exact absurd rfl (ha _)
  | dispatched h => simp [countP_last, h.count Instr.executes]
  | _ => simp [countP_last]

namespace Seat

variable {w h : Nat} {v v' : Seat} {a : Act} {is is' : List Instr} {M : Multiset Instr}

/-- The session with the handle `h` is in the slot, and `CreateSession` is done with it. -/
structure Serves (w : Nat) (v : Seat) (C : Multiset Instr) (h : Nat) : Prop where
  used : v.cell.state ≠ 0
  created : num Instr.creates C = 0
  handle : v.handle w = h

/-- A session stays in its slot until it is pushed. -/
theorem Serves.step (hs : Serves w v (is + M) h) (hst : SeatStep w v a is is' v')
    (hp : ∀ g o, a ≠ .run (.push g) o) : Serves w v' (is' + M) h := by
  have hc := hs.created
  have frame : v'.cell.generation = v.cell.generation → v'.cell.state ≠ 0 →
      num Instr.creates (is' + M) = 0 → Serves w v' (is' + M) h :=
    fun hg hu hn => ⟨hu, hn, (handle_congr hg).trans hs.handle⟩
  cases hst with
  | pop h0 => exact absurd h0 hs.used
  | init | construct | enter => simp at hc
  | push => exact absurd rfl (hp _ _)
  | connectSession | setState => exact frame rfl (by simp) (by simpa using hc)
  | dispatched hi => exact frame rfl hs.used (by simpa [countP_last, hi.count Instr.creates] using hc)
  | _ => exact frame rfl hs.used (by simpa [countP_last] using hc)

/-- The session knows its handle. -/
theorem Serves.session {C : Multiset Instr} (hs : Serves w v C h) (hb : Base w v C) :
    v.conn.handle = h :=
  (hb.handle_eq hs.used hs.created).trans hs.handle

/-- Whoever has a reference to a session is served by it. -/
theorem Base.serves {C : Multiset Instr} (hb : Base w v C) (hcov : Cover C) {i : Instr} (hi : i ∈ C)
    (hn : i.needs = true) : Serves w v C v.conn.handle := by
  obtain ⟨hst, hcr⟩ := hb.in_use hcov hi hn
  exact ⟨hst, hcr, (hb.handle_eq hst hcr).symm⟩

end Seat

namespace Engine

variable {ι : Type} {N kMaxAccept : Nat} {s s' : Engine ι N} {e : Event ι} {w : Nat} {a : Act}
  {is is' fs fs' : List Instr}

/-- The tasks after a step are tasks before it, or they have been posted for the session it is
about. -/
theorem Touches.posted (ht : Touches s s' e w a is fs fs') {t : Task} (hm : t ∈ s'.tasks) :
    t ∈ s.tasks ∨ t.slot = w ∧ t.handle = (s.view w).conn.handle ∧
      ∃ o, is = [.onRecv w] ∧ a = .run (.onRecv w) o ∧ t.kind ∈ o.tasks := by
  cases ht with
  | run hc hi hp htasks =>
    rename_i b o i rest
    rw [htasks, List.mem_append] at hm
    refine hm.imp_right fun hm => ?_
    cases i with
    | onRecv k =>
      obtain rfl : k = w := Option.some.inj hi
      simp only [Instr.posts, List.mem_map] at hm
      obtain ⟨kind, hk, rfl⟩ := hm
      exact ⟨rfl, rfl, o, rfl, rfl, hk⟩
    | _ => cases hm
  | task hp htasks => exact .inl (htasks ▸ List.mem_cons_of_mem _ hm)
  | _ =>
    rename_i htasks
    exact .inl (htasks ▸ hm)

theorem executes_spawns (v : Seat) (o : Outcome) (i : Instr) :
    (i.spawns v o).countP Instr.executes = 0 := by
  refine List.countP_eq_zero.mpr fun j hj => ?_
  have hn := (slot_spawns v o i j hj).1
  cases j with
  | execute => cases hn
  | _ => exact Bool.false_ne_true

variable [Fintype ι] [DecidableEq ι]

/-- A thread that goes on has one instruction replaced, and not by an `Execute`. -/
theorem Good.run (hN : N < 2 ^ 32) (hg : s.Good) {b : ι} {o : Outcome}
    (h : s.step kMaxAccept (.run b o) = some s') : ∃ i l rest, s.code b = i :: rest ∧
      s'.code = Function.update s.code b (l ++ rest) ∧ l.countP Instr.executes = 0 := by
  simp only [Engine.step] at h
  split at h
  · cases h
  · rename_i i rest hc
    obtain ⟨⟨t, l⟩, hp, h⟩ := Option.bind_eq_some_iff.mp h
    cases h
    have key : t.code = s.code ∧ l.countP Instr.executes = 0 := by
      cases hi : i.slot with
      | some w =>
        have hw := hg.inRange b i (hc ▸ List.mem_cons_self) w hi
        have hmem : i ∈ s.codeAt w := mem_codeAt.mpr ⟨⟨b, hc ▸ List.mem_cons_self⟩, hi⟩
        have hact := perform_local hN hg.rep hw hi (hg.base w hw) hmem hp
        obtain ⟨is, hs, rfl⟩ := hact.seat
        refine ⟨hact.code, ?_⟩
        rw [List.countP_append, hs.executes (fun _ e => by cases e), executes_spawns]
      | none =>
        cases i with
        | load | cas =>
          simp only [perform] at hp
          split at hp <;> cases hp <;> simp
        | rollback =>
          obtain ⟨-, -, hcode, -, -, rfl⟩ := perform_rollback hp
          exact ⟨hcode, rfl⟩
        | acquire =>
          obtain ⟨-, -, hcode, -, ⟨w, -, hs, -⟩ | ⟨-, -, rfl⟩⟩ := perform_acquire hN hg.rep hp
          · exact ⟨hcode, hs.executes (fun _ e => by cases e)⟩
          · exact ⟨hcode, rfl⟩
        | lookup handle call =>
          obtain ⟨-, -, hcode, -, -, ⟨hs, -⟩ | ⟨-, -, rfl⟩⟩ :=
            perform_lookup hN hg.rep (fun w hw => (hg.base w hw).entry_eq) hp
          · exact ⟨hcode, hs.executes (fun _ e => by cases e)⟩
          · exact ⟨hcode, rfl⟩
        | _ => cases hi
    refine ⟨i, l, rest, hc, ?_, key.2⟩
    rw [← key.1]
    rfl

end Engine

namespace Engine

variable {ι : Type}

/-- A client is accepted, by the thread `a`. -/
def arrive (a : ι) : List (Event ι) :=
  .postAccept a :: runs a 13 ++ .accepted 0 :: .dequeue a 0 .recv true false :: runs a 20

/-- It sends a packet. -/
def packet (a : ι) (kind : TaskKind) : List (Event ι) :=
  .dequeue a 0 .recv true false :: runs a 3 ++ .run a ⟨true, false, [kind], []⟩ :: runs a 5

/-- It is gone, and is disconnected. -/
def leave (a : ι) : List (Event ι) :=
  .dequeue a 0 .recv true true :: runs a 10 ++ .disconnected 0 ::
    .dequeue a 0 .disconnect true false :: runs a 6

/-- The send that was outstanding is given up, and the slot is used again. -/
def reuse (a : ι) : List (Event ι) := .dequeue a 0 .send false false :: runs a 20

end Engine

/-- The engine, and the task that each thread is executing. -/
structure Served (ι : Type) (N : Nat) where
  engine : Engine ι N
  running : ι → Option Task

namespace Served

variable {ι : Type} {N kMaxAccept : Nat}

def start (ι : Type) (N : Nat) : Served ι N := ⟨.start ι N, fun _ => none⟩

variable [DecidableEq ι]

/-- `WorkerThreadFunc` has taken a task, or the task has come to its end. -/
def next (s : Served ι N) : Engine.Event ι → ι → Option Task
  | .task a => Function.update s.running a s.engine.tasks.head?
  | .run a _ =>
      match s.engine.code a with
      | .taskEnd _ :: _ => Function.update s.running a none
      | _ => s.running
  | _ => s.running

def step (kMaxAccept : Nat) (s : Served ι N) (e : Engine.Event ι) : Option (Served ι N) := do
  let engine ← s.engine.step kMaxAccept e
  return ⟨engine, s.next e⟩

/-- No slot is pushed under a task that is queued or being executed. -/
def Undisturbed (s : Served ι N) : Engine.Event ι → Prop
  | .run a _ => ∀ w ∈ (s.engine.code a).head?.bind Instr.pushed,
      (∀ t ∈ s.engine.tasks, t.slot ≠ w) ∧ ∀ b, ∀ t ∈ s.running b, t.slot ≠ w
  | _ => True

variable [Fintype ι]

/-- The session that received the packet of `t` is in its slot. -/
def Serves (s : Engine ι N) (t : Task) : Prop :=
  t.slot < N ∧ (s.view t.slot).Serves t.slot (s.codeAt t.slot) t.handle

/-- The tasks of a thread, and what it has still to execute. -/
def Matches (r : Option Task) (l : List Instr) : Prop :=
  l.countP Instr.executes = 0 ∨ ∃ t, r = some t ∧ l = [.execute t, .taskEnd t.slot]

structure Inv (s : Served ι N) : Prop where
  good : s.engine.Good
  queued : ∀ t ∈ s.engine.tasks, Serves s.engine t
  running : ∀ a, ∀ t ∈ s.running a, Serves s.engine t
  code : ∀ a, Matches (s.running a) (s.engine.code a)

variable {s s' : Served ι N} {e : Engine.Event ι} {es : List (Engine.Event ι)}

omit [DecidableEq ι] in
theorem start_inv (hN : N < 2 ^ 32) : (start ι N).Inv := by
  refine ⟨Engine.start_good hN, fun t ht => ?_, fun a t ht => ?_, fun _ => .inl rfl⟩
  · cases ht
  · cases ht

omit [Fintype ι] in
theorem step_eq (h : s.step kMaxAccept e = some s') :
    s.engine.step kMaxAccept e = some s'.engine ∧ s'.running = s.next e := by
  obtain ⟨t, ht, h⟩ := Option.bind_eq_some_iff.mp h
  cases h
  exact ⟨ht, rfl⟩

/-- Whoever is served before the step is served after it. -/
theorem Inv.serves (hN : N < 2 ^ 32) (hi : s.Inv) (hf : s.engine.Fits) (hu : s.Undisturbed e)
    (h : s.engine.step kMaxAccept e = some s'.engine) {t : Task} (ht : Serves s.engine t)
    (hq : t ∈ s.engine.tasks ∨ ∃ a, t ∈ s.running a) : Serves s'.engine t := by
  obtain ⟨hw, hs⟩ := ht
  have hkeep := hi.good.slots hN hf h
    (P := fun w v C => w = t.slot → v.Serves w C t.handle) (fun _ _ e => e ▸ hs) ?_
  · exact ⟨hw, hkeep t.slot hw rfl⟩
  intro w _ a is is' fs fs' M hst htch hM hwt
  have hs' : (s.engine.view w).Serves w (is + M) t.handle := by
    rw [← hM, hwt]
    exact hs
  refine hs'.step hst fun g o e => ?_
  subst e
  cases htch with
  | run hc hi _ _ =>
    have hpush : slotIndex g = t.slot := (Option.some.inj hi).trans hwt
    obtain ⟨hqueue, hrun⟩ := hu t.slot (by rw [hc, ← hpush]; rfl)
    rcases hq with hq | ⟨a, hq⟩
    · exact hqueue t hq rfl
    · exact hrun a t hq rfl

/-- What is posted is posted for the session that received it. -/
theorem Inv.queue (hN : N < 2 ^ 32) (hi : s.Inv) (hf : s.engine.Fits) (hu : s.Undisturbed e)
    (h : s.engine.step kMaxAccept e = some s'.engine) : ∀ t ∈ s'.engine.tasks, Serves s'.engine t := by
  intro t ht
  obtain ⟨hm, hr'⟩ := Engine.step_moves hN hi.good h
  have hold : t ∈ s.engine.tasks → Serves s'.engine t := fun hq =>
    hi.serves hN hf hu h (hi.queued t hq) (.inl hq)
  cases hm with
  | idle _ htasks _ _ => exact hold (htasks ▸ ht)
  | slot hw hst ho htch hc =>
    rename_i w a is is' fs fs'
    rcases htch.posted ht with hq | ⟨rfl, hh, o, his, ha, -⟩
    · exact hold hq
    · subst his ha
      obtain ⟨-, ⟨M, hM, hM'⟩, -, -⟩ := hi.good.seat hN hf hw hr' hst htch hc
      have hb := hi.good.base t.slot hw
      have hcov := hi.good.cover t.slot
      rw [hM] at hb hcov
      have hs := hb.serves hcov (i := .onRecv t.slot) (by simp) rfl
      refine ⟨hw, ?_⟩
      rw [hM', hh]
      exact hs.step hst fun g o e => by cases e

omit [Fintype ι] in
/-- Only the thread that takes a task, or comes to the end of one, executes another one than before. -/
theorem next_other {a : ι} (ht : e ≠ .task a) (hr : ∀ o, e ≠ .run a o) :
    s.next e a = s.running a := by
  cases e with
  | task b =>
    have hab : a ≠ b := fun e => ht (e ▸ rfl)
    exact Function.update_of_ne hab ..
  | run b o =>
    have hab : a ≠ b := fun e => hr o (e ▸ rfl)
    simp only [next]
    generalize s.engine.code b = l
    split
    · exact Function.update_of_ne hab ..
    · rfl
  | _ => rfl

omit [Fintype ι] in
/-- The tasks that the threads execute after the step were executed or queued before it. -/
theorem next_running {a : ι} {t : Task} (ht : t ∈ s.next e a) :
    t ∈ s.running a ∨ t ∈ s.engine.tasks := by
  by_cases htask : e = .task a
  · subst htask
    rw [next, Function.update_self] at ht
    exact .inr (List.mem_of_mem_head? ht)
  by_cases hrun : ∃ o, e = .run a o
  · obtain ⟨o, rfl⟩ := hrun
    simp only [next] at ht
    generalize s.engine.code a = l at ht
    split at ht
    · rw [Function.update_self] at ht
      cases ht
    · exact .inl ht
  · rw [next_other htask fun o e => hrun ⟨o, e⟩] at ht
    exact .inl ht

omit [Fintype ι] in
/-- A thread starts something else than a task. -/
theorem matches_start {running : ι → Option Task} {t : Engine ι N} {b : ι} {l : List Instr}
    (h : ∀ a, Matches (running a) (t.code a)) (hl : l.countP Instr.executes = 0) (a : ι) :
    Matches (running a) ((t.putCode b l).code a) := by
  by_cases hab : a = b
  · subst hab
    rw [Engine.putCode_self]
    exact .inl hl
  · rw [Engine.putCode_other hab]
    exact h a

/-- A thread that has an `Execute` before it has just taken its task. -/
theorem Inv.matches (hN : N < 2 ^ 32) (hi : s.Inv) {t : Engine ι N}
    (h : s.engine.step kMaxAccept e = some t) : ∀ a, Matches (s.next e a) (t.code a) := by
  intro a
  have hold := hi.code a
  cases e with
  | run b o =>
    obtain ⟨i, l, rest, hc, hc', hl⟩ := hi.good.run hN h
    rw [hc']
    by_cases hab : a = b
    · subst hab
      have hrest : rest.countP Instr.executes = 0 := by
        rw [hc] at hold
        rcases hold with h0 | ⟨t, -, hcode⟩
        · rw [List.countP_cons] at h0
          omega
        · rw [(List.cons.inj hcode).2]
          rfl
      rw [Function.update_self]
      exact .inl (by rw [List.countP_append, hl, hrest])
    · rw [Function.update_of_ne hab, next_other (by simp) fun o e => hab (by cases e; rfl)]
      exact hold
  | task b =>
    simp only [Engine.step] at h
    split at h
    · rename_i u tasks hu
      split_ifs at h
      cases h
      by_cases hab : a = b
      · subst hab
        refine .inr ⟨u, ?_, Engine.putCode_self ..⟩
        rw [next, Function.update_self, hu]
        rfl
      · rw [next_other (fun e => hab (by cases e; rfl)) (by simp), Engine.putCode_other hab]
        exact hold
    · cases h
  | accepted w | disconnected w =>
    rw [Engine.step] at h
    split_ifs at h
    cases h
    exact hold
  | postAccept b | call b | dequeue b =>
    rw [Engine.step] at h
    split_ifs at h
    cases h
    exact matches_start hi.code rfl a

theorem Inv.step (hN : N < 2 ^ 32) (hi : s.Inv) (hf : s.engine.Fits) (hu : s.Undisturbed e)
    (h : s.step kMaxAccept e = some s') : s'.Inv := by
  obtain ⟨he, hnext⟩ := step_eq h
  refine ⟨hi.good.step hN hf he, hi.queue hN hf hu he, fun a t ht => ?_, ?_⟩
  · rw [hnext] at ht
    rcases next_running ht with hr | hq
    · exact hi.serves hN hf hu he (hi.running a t hr) (.inr ⟨a, hr⟩)
    · exact hi.serves hN hf hu he (hi.queued t hq) (.inl hq)
  · rw [hnext]
    exact hi.matches hN he

/-- **Tasks run on the sessions that received their packets**, in every run that pushes no slot under
one. -/
theorem executed_on_own (hN : N < 2 ^ 32)
    (r : Runs (step kMaxAccept) (fun s e => s.engine.Fits ∧ s.Undisturbed e) (start ι N) es s) {a : ι}
    {t : Task} (h : .execute t ∈ s.engine.code a ∨ s.running a = some t) :
    (s.engine.sessions t.slot).handle = t.handle ∧
      (s.engine.view t.slot).handle t.slot = t.handle := by
  have hi : s.Inv := r.invariant (start_inv hN) fun _ _ _ hi hok hs => hi.step hN hok.1 hok.2 hs
  have hrun : s.running a = some t := by
    rcases h with hmem | hrun
    · rcases hi.code a with h0 | ⟨u, hu, hcode⟩
      · have := List.countP_eq_zero.mp h0 _ hmem
        simp at this
      · rw [hcode] at hmem
        obtain rfl : t = u := by simpa using hmem
        exact hu
    · exact hrun
  obtain ⟨hw, hserves⟩ := hi.running a t hrun
  exact ⟨hserves.session (hi.good.base t.slot hw), hserves.handle⟩

instance (s : Served ι N) (e : Engine.Event ι) : Decidable (s.Undisturbed e) :=
  match e with
  | .run a _ => inferInstanceAs (Decidable (∀ w ∈ (s.engine.code a).head?.bind Instr.pushed,
      (∀ t ∈ s.engine.tasks, t.slot ≠ w) ∧ ∀ b, ∀ t ∈ s.running b, t.slot ≠ w))
  | .postAccept _ | .call .. | .task _ | .accepted _ | .disconnected _ | .dequeue .. =>
      .isTrue trivial

open Engine (arrive packet leave reuse)

/-- The reply to a client's packet. -/
theorem executed_on_own_reply : ∃ s : Served (Fin 2) 1,
    Runs (step 1) (fun s e => s.engine.Fits ∧ s.Undisturbed e) (start (Fin 2) 1)
        (arrive 0 ++ packet 0 .reply ++ [.task 1]) s ∧
      s.running 1 = some ⟨0, 0, .reply⟩ ∧ (s.engine.sessions 0).handle = 0 := by
  have hexec : (execIf (fun s e => decide (s.engine.Fits ∧ s.Undisturbed e)) (step 1)
      (start (Fin 2) 1) (arrive 0 ++ packet 0 .reply ++ [.task 1])).map (·.running 1) =
      some (some ⟨0, 0, .reply⟩) := by
    decide +kernel
  obtain ⟨s, hs, hrun⟩ := Option.map_eq_some_iff.mp hexec
  have r : Runs (step 1) (fun s e => s.engine.Fits ∧ s.Undisturbed e) (start (Fin 2) 1)
      (arrive 0 ++ packet 0 .reply ++ [.task 1]) s :=
    Runs.of_execIf (I := fun _ => True) (fun _ _ _ h => of_decide_eq_true h)
      (fun _ _ _ _ _ _ => trivial) trivial hs
  exact ⟨s, r, hrun, (executed_on_own (by decide) r (.inr hrun)).1⟩

/-- **A login is executed on the session of the next client**: its own has been released while the
task was queued. -/
theorem executed_on_next : ∃ s : Served (Fin 2) 1,
    Runs (step 1) (fun s _ => s.engine.Fits) (start (Fin 2) 1)
        (arrive 0 ++ packet 0 .login ++ leave 0 ++ reuse 0 ++ [.task 1]) s ∧
      s.running 1 = some ⟨0, 0, .login⟩ ∧ (s.engine.sessions 0).handle = 2 ^ 32 ∧
      s.engine.sessionPtrs 0 = some (2 ^ 32) := by
  have hexec : (execIf (fun s _ => decide s.engine.Fits) (step 1) (start (Fin 2) 1)
      (arrive 0 ++ packet 0 .login ++ leave 0 ++ reuse 0 ++ [.task 1])).map
        (fun s => decide (s.running 1 = some ⟨0, 0, .login⟩ ∧
          (s.engine.sessions 0).handle = 2 ^ 32 ∧ s.engine.sessionPtrs 0 = some (2 ^ 32))) =
      some true := by
    decide +kernel
  obtain ⟨s, hs, heq⟩ := Option.map_eq_some_iff.mp hexec
  refine ⟨s, ?_, of_decide_eq_true heq⟩
  exact Runs.of_execIf (I := fun _ => True) (fun _ _ _ h => of_decide_eq_true h)
    (fun _ _ _ _ _ _ => trivial) trivial hs

end Served

/-! ### The entries -/

namespace Seat

variable {w : Nat} {v v' : Seat} {a : Act} {is is' : List Instr} {M : Multiset Instr}

/-- While a login or logout is executed, `sessionPtrs_` has the session, and it is the one that
`LogInSession` or `LogOutSession` has been given. -/
structure Logs (v : Seat) (C : Multiset Instr) : Prop where
  entered : 0 < num Instr.logs C → v.entry ≠ none
  given : ∀ h, v.entry = some h → num (Instr.strays h) C = 0

/-- An entry is of the session that is in the slot, and the session knows. -/
theorem Base.entered_handle {C : Multiset Instr} (hb : Base w v C) (he : v.entry ≠ none) :
    v.entry = some v.conn.handle := by
  obtain ⟨g, hg⟩ := Option.ne_none_iff_exists'.mp he
  have hf := hb.tally.free_iff
  have hc := hb.creating
  have hle := Instr.enters_le C
  simp only [held, hg, refs_some] at hf hc
  have hst : v.cell.state ≠ 0 := by omega
  have hcr : num Instr.creates C = 0 := by omega
  rw [hg, hb.entry_eq g hg, hb.handle_eq hst hcr]

/-- A call finds the handle it has been given. -/
theorem Logs.given_entry {C : Multiset Instr} (hl : v.Logs C) {handle : Nat}
    (hm : .setAccountId w handle ∈ C) : v.entry = some handle := by
  obtain ⟨g, hg⟩ := Option.ne_none_iff_exists'.mp (hl.entered (num_pos hm rfl))
  have hgiven := num_eq_zero.mp (hl.given g hg) _ hm
  have hsame : handle = g := by simpa using hgiven
  exact hsame ▸ hg

/-- What is executed keeps its entry. -/
theorem Logs.entered_step (hl : v.Logs (is + M)) (h : SeatStep w v a is is' v')
    (hreset : ∀ o, a = .run (.reset w) o → num Instr.logs (is + M) = 0)
    (htask : ∀ t, a = .task t → t.kind.logs = true → v.entry ≠ none)
    (hpos : 0 < num Instr.logs (is' + M)) : v'.entry ≠ none := by
  have hent := hl.entered
  cases h with
  | reset =>
    have := hreset _ rfl
    simp [countP_last] at this hpos
    omega
  | enter => simp
  | task =>
    rename_i t
    by_cases ht : t.kind.logs = true
    · exact htask t rfl ht
    · simp [ht] at hpos
      exact hent (by simpa using hpos)
  | execute =>
    rename_i t o
    refine hent (lt_of_lt_of_le hpos ?_)
    cases hk : t.kind <;> simp [TaskKind.body, TaskKind.logs, hk] <;> omega
  | dispatched hi =>
    simp [countP_last, hi.count Instr.logs] at hpos
    exact hent (by simpa using hpos)
  | logIn | logOut | setAccountId => exact hent (by simp)
  | _ =>
    simp [countP_last] at hpos
    exact hent (by simpa using hpos)

/-- `HandleLogin` and `HandleLogout` give the handle of their session. -/
theorem Logs.given_step (hl : v.Logs (is + M)) (h : SeatStep w v a is is' v')
    (hb : Base w v (is + M)) (k : Nat) (he : v'.entry = some k) :
    num (Instr.strays k) (is' + M) = 0 := by
  have hgiven := hl.given k
  cases h with
  | reset => cases he
  | enter hnone =>
    -- nobody is on the way to an entry that is empty
    have h0 : ¬ 0 < num Instr.logs M := fun hpos => hl.entered (by simpa using hpos) hnone
    have hle := Instr.strays_le k M
    simp
    omega
  | logIn | logOut =>
    have hentry := hb.entered_handle (by simp [he])
    obtain rfl : v.conn.handle = k := Option.some.inj (hentry.symm.trans he)
    simpa using hgiven he
  | dispatched hi =>
    have hold := hgiven he
    simp [countP_last, hi.count (Instr.strays k)] at hold ⊢
    exact hold
  | setAccountId =>
    have hold := hgiven he
    simp at hold ⊢
    omega
  | _ =>
    have hold := hgiven he
    simp [countP_last] at hold ⊢
    exact hold

theorem Logs.step (hl : v.Logs (is + M)) (h : SeatStep w v a is is' v') (hb : Base w v (is + M))
    (hreset : ∀ o, a = .run (.reset w) o → num Instr.logs (is + M) = 0)
    (htask : ∀ t, a = .task t → t.kind.logs = true → v.entry ≠ none) : v'.Logs (is' + M) :=
  ⟨hl.entered_step h hreset htask, hl.given_step h hb⟩

/-- Only `DisconnectSession` empties an entry. -/
theorem entry_stays (h : SeatStep w v a is is' v') (ha : ∀ o, a ≠ .run (.reset w) o)
    (he : v.entry ≠ none) : v'.entry ≠ none := by
  cases h with
  | reset => exact absurd rfl (ha _)
  | enter => simp
  | _ => exact he

end Seat

namespace Engine

variable {ι : Type} {N kMaxAccept : Nat} {s s' : Engine ι N} {e : Event ι} {es : List (Event ι)}

/-- `DisconnectSession` is not called for a session whose login or logout is queued or executed, and
`OnRecv` posts none for a session whose entry is gone. -/
def KeepsEntry (s : Engine ι N) (o : Outcome) : Instr → Prop
  | .reset w => (∀ t ∈ s.tasks, t.slot = w → t.kind.logs = false) ∧
      ∀ b, ∀ i ∈ s.code b, i.slot = some w → i.logs = false
  | .onRecv w => s.sessionPtrs w = none → ∀ k ∈ o.tasks, k.logs = false
  | _ => True

def LogsInTime (s : Engine ι N) : Event ι → Prop
  | .run a o => ∀ i ∈ (s.code a).head?, s.KeepsEntry o i
  | _ => True

variable [Fintype ι]

/-- **The entry of a session is there as long as its logins and logouts are on their way.** -/
structure Entered (s : Engine ι N) : Prop where
  good : s.Good
  executed : ∀ w < N, (s.view w).Logs (s.codeAt w)
  queued : ∀ t ∈ s.tasks, t.kind.logs = true → s.sessionPtrs t.slot ≠ none

theorem start_entered (hN : N < 2 ^ 32) : (start ι N).Entered := by
  refine ⟨start_good hN, fun w _ => ?_, fun t ht => ?_⟩
  · have hall : (start ι N).all = 0 := Finset.sum_eq_zero fun _ _ => rfl
    rw [codeAt, hall, Multiset.filter_zero]
    exact ⟨fun hpos => absurd hpos (lt_irrefl 0), fun _ _ => rfl⟩
  · cases ht

variable [DecidableEq ι]

omit [DecidableEq ι] in
/-- A session that is reset has no login and no logout on its way. -/
theorem LogsInTime.reset (hok : s.LogsInTime e) {w : Nat} {o : Outcome} {is fs fs' : List Instr}
    (ht : Touches s s' e w (.run (.reset w) o) is fs fs') :
    (∀ t ∈ s.tasks, t.slot = w → t.kind.logs = false) ∧ num Instr.logs (s.codeAt w) = 0 := by
  cases ht with
  | run hc hi _ _ =>
    obtain ⟨hqueue, hcode⟩ := hok (.reset w) (by rw [hc]; rfl)
    refine ⟨hqueue, num_eq_zero.mpr fun i hm => ?_⟩
    obtain ⟨⟨b, hb⟩, hs⟩ := mem_codeAt.mp hm
    exact hcode b i hb hs

/-- What is queued keeps its entry. -/
theorem Entered.queue (hN : N < 2 ^ 32) (hi : s.Entered) (hok : s.LogsInTime e)
    (h : s.step kMaxAccept e = some s') :
    ∀ t ∈ s'.tasks, t.kind.logs = true → s'.sessionPtrs t.slot ≠ none := by
  intro t ht hk
  obtain ⟨hm, -⟩ := step_moves hN hi.good h
  cases hm with
  | idle ho htasks _ _ =>
    have hv : s'.sessionPtrs t.slot = s.sessionPtrs t.slot := congrArg Seat.entry (ho t.slot)
    rw [hv]
    exact hi.queued t (htasks ▸ ht) hk
  | slot hw hst ho htch hc =>
    rename_i w a is is' fs fs'
    have hbefore : s.sessionPtrs t.slot ≠ none := by
      rcases htch.posted ht with hq | ⟨hx, -, o, rfl, rfl, hko⟩
      · exact hi.queued t hq hk
      · rw [hx]
        intro hnone
        cases htch with
        | run hc' _ _ _ =>
          have := hok (.onRecv w) (by rw [hc']; rfl) hnone _ hko
          rw [hk] at this
          cases this
    by_cases hx : t.slot = w
    · subst hx
      refine Seat.entry_stays hst ?_ hbefore
      rintro o rfl
      have hq := (htch.posted ht).resolve_right (by rintro ⟨-, -, o, -, e, -⟩; cases e)
      have := (hok.reset htch).1 t hq rfl
      rw [hk] at this
      cases this
    · have hv : s'.sessionPtrs t.slot = s.sessionPtrs t.slot := congrArg Seat.entry (ho t.slot hx)
      rw [hv]
      exact hbefore

theorem Entered.step (hN : N < 2 ^ 32) (hi : s.Entered) (hf : s.Fits) (hok : s.LogsInTime e)
    (h : s.step kMaxAccept e = some s') : s'.Entered := by
  refine ⟨hi.good.step hN hf h, hi.good.slots hN hf h hi.executed ?_, hi.queue hN hok h⟩
  intro w hw a is is' fs fs' M hst htch hM
  have hl := hi.executed w hw
  have hb := hi.good.base w hw
  rw [hM] at hl hb
  refine hl.step hst hb ?_ ?_
  · rintro o rfl
    rw [← hM]
    exact (hok.reset htch).2
  · rintro t rfl hk
    cases htch with
    | task _ htasks => exact hi.queued t (htasks ▸ List.mem_cons_self) hk

/-- **`LogInSession` and `LogOutSession` find their entry, and in it the handle they have been
given**, in every run that keeps it for them. -/
theorem logs_in_entered (hN : N < 2 ^ 32)
    (r : Runs (step kMaxAccept) (fun s e => s.Fits ∧ s.LogsInTime e) (start ι N) es s) {a : ι}
    {w handle : Nat} {rest : List Instr} (h : s.code a = .setAccountId w handle :: rest) :
    s.sessionPtrs (slotIndex handle) = some handle := by
  have hi : s.Entered := r.invariant (start_entered hN) fun _ _ _ hi hok hs =>
    hi.step hN hok.1 hok.2 hs
  have hmem : .setAccountId w handle ∈ s.code a := h ▸ List.mem_cons_self
  have hw := hi.good.inRange a _ hmem w rfl
  have hb := hi.good.base w hw
  have he : s.sessionPtrs w = some handle :=
    (hi.executed w hw).given_entry (mem_codeAt.mpr ⟨⟨a, hmem⟩, rfl⟩)
  have hidx : slotIndex handle = w := by
    rw [hb.entry_eq handle he]
    exact hi.good.rep.slotIndex_handle hN hw
  rw [hidx]
  exact he

instance (s : Engine ι N) (o : Outcome) (i : Instr) : Decidable (s.KeepsEntry o i) :=
  match i with
  | .reset w => inferInstanceAs (Decidable ((∀ t ∈ s.tasks, t.slot = w → t.kind.logs = false) ∧
      ∀ b, ∀ i ∈ s.code b, i.slot = some w → i.logs = false))
  | .onRecv w => inferInstanceAs (Decidable (s.sessionPtrs w = none → ∀ k ∈ o.tasks, k.logs = false))
  | .load | .cas _ | .rollback | .setListener _ | .acquire | .init _ | .construct _ | .enter _
  | .give _ | .register .. | .assign .. | .post .. | .complete .. | .countDown _ | .handleError ..
  | .failed .. | .dispatch .. | .dispatched .. | .handleAccept _ | .connect .. | .connectSession ..
  | .sendPacket .. | .onSend _ | .disconnect _ | .setState _ | .lookup .. | .drop _ | .push _
  | .execute _ | .account _ | .accountEnd _ | .logIn _ | .logOut _ | .setAccountId ..
  | .taskEnd _ => .isTrue trivial

instance (s : Engine ι N) (e : Event ι) : Decidable (s.LogsInTime e) :=
  match e with
  | .run a o => inferInstanceAs (Decidable (∀ i ∈ (s.code a).head?, s.KeepsEntry o i))
  | .postAccept _ | .call .. | .task _ | .accepted _ | .disconnected _ | .dequeue .. =>
      .isTrue trivial

/-- A login while the client is connected. -/
theorem logs_in_entered_connected : ∃ (s : Engine (Fin 2) 1) (rest : List Instr),
    Runs (step 1) (fun s e => s.Fits ∧ s.LogsInTime e) (start (Fin 2) 1)
        (arrive 0 ++ packet 0 .login ++ .task 1 :: runs 1 4) s ∧
      s.code 1 = .setAccountId 0 0 :: rest ∧ s.sessionPtrs (slotIndex 0) = some 0 := by
  have hexec : (execIf (fun s e => decide (s.Fits ∧ s.LogsInTime e)) (step 1) (start (Fin 2) 1)
      (arrive 0 ++ packet 0 .login ++ .task 1 :: runs 1 4)).map (fun s => s.code 1) =
      some [.setAccountId 0 0, .sendPacket 0 .plain, .taskEnd 0] := by
    decide +kernel
  obtain ⟨s, hs, hcode⟩ := Option.map_eq_some_iff.mp hexec
  have r : Runs (step 1) (fun s e => s.Fits ∧ s.LogsInTime e) (start (Fin 2) 1)
      (arrive 0 ++ packet 0 .login ++ .task 1 :: runs 1 4) s :=
    Runs.of_execIf (I := fun _ => True) (fun _ _ _ h => of_decide_eq_true h)
      (fun _ _ _ _ _ _ => trivial) trivial hs
  exact ⟨s, _, r, hcode, logs_in_entered (by decide) r hcode⟩

/-- **A login is executed behind `DisconnectSession`**: the entry is empty, and the thread has no
next step. -/
theorem logs_in_disconnected : ∃ (s : Engine (Fin 2) 1) (rest : List Instr),
    Runs (step 1) (fun s _ => s.Fits) (start (Fin 2) 1)
        (arrive 0 ++ packet 0 .login ++ leave 0 ++ .task 1 :: runs 1 4) s ∧
      s.code 1 = .setAccountId 0 0 :: rest ∧ s.sessionPtrs (slotIndex 0) = none ∧
      (s.step 1 (.run 1 well)).isNone := by
  have hexec : (execIf (fun s _ => decide s.Fits) (step 1) (start (Fin 2) 1)
      (arrive 0 ++ packet 0 .login ++ leave 0 ++ .task 1 :: runs 1 4)).map
        (fun s => decide (s.code 1 = [.setAccountId 0 0, .sendPacket 0 .plain, .taskEnd 0] ∧
          s.sessionPtrs (slotIndex 0) = none ∧ (s.step 1 (.run 1 well)).isNone)) =
      some true := by
    decide +kernel
  obtain ⟨s, hs, heq⟩ := Option.map_eq_some_iff.mp hexec
  refine ⟨s, _, ?_, of_decide_eq_true heq⟩
  exact Runs.of_execIf (I := fun _ => True) (fun _ _ _ h => of_decide_eq_true h)
    (fun _ _ _ _ _ _ => trivial) trivial hs

end Engine

end IocpServer
