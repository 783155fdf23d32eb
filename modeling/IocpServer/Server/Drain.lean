import IocpServer.Server.TaskQueue
import IocpServer.Support.Halting
import IocpServer.Support.Total

/-!
# Server — Drain

What becomes of the tasks given to `TaskQueue::Push`, whatever the order in which the threads that
push, the workers and `Shutdown` take their steps.

* `Log`: the queue with the calls of `Push`, in the order of their turns at the mutex, and with what
  `Pop` has returned.
* `Log.Exact`: what has been returned, what is queued and what is still to be stored are the tasks of
  those calls, once each and in their order.
* `work`: how many steps the threads can take before another call or a spurious wake-up.
* `tasks_drained`: and what they come to.
-/

namespace IocpServer

namespace TaskQueue

variable {τ κ ι : Type}

/-! ### Calls and what they return -/

/-- The task a thread has still to store. -/
def held : PushPhase τ → List τ
  | .locked task => [task]
  | .outside | .stored | .notified => []

/-- That of the thread inside `Push`. -/
def heldTask (s : TaskQueue τ κ ι) : List τ :=
  match s.mutex with
  | some (.pusher i) => held (s.pusher i)
  | _ => []

/-- The call of `Push` that gets its turn. -/
def pushes : Event τ κ ι → List (ι × τ)
  | .lockPush i task => [(i, task)]
  | _ => []

/-- The task that `Pop` returns. -/
def pops (s : TaskQueue τ κ ι) : Event τ κ ι → List (κ × τ)
  | .leave w => if s.isShuttingDown then [] else (s.tasks.head?.map (w, ·)).toList
  | _ => []

/-- The queue, the calls of `Push` so far, and the tasks that `Pop` has returned so far. -/
structure Log (τ κ ι : Type) where
  queue : TaskQueue τ κ ι
  pushed : List (ι × τ)
  popped : List (κ × τ)

/-! ### The mutex and the predicate -/

/-- What the threads rely on besides `Inv`: the mutex is locked by a thread inside, a worker goes on
behind `wait` when the predicate holds, and one that has ended has seen the flag. -/
structure Tidy (s : TaskQueue τ κ ι) : Prop where
  owned : ∀ l, s.mutex = some l → s.Inside l
  leaving : ∀ w, s.worker w = .leaving → s.ready = true
  gone : ∀ w, s.worker w = .gone → s.isShuttingDown = true
  called : s.isShuttingDown = true → s.shutdown ≠ .before

theorem start_tidy : (start : TaskQueue τ κ ι).Tidy := by
  refine ⟨fun l h => ?_, fun w h => ?_, fun w h => ?_, fun h => ?_⟩ <;> cases h

variable {s s' : TaskQueue τ κ ι}

theorem ready_of_tasks (h : s.tasks ≠ []) : s.ready = true := by
  rw [ready, List.isEmpty_eq_false_iff.mpr h]
  rfl

theorem ready_of_flag (h : s.isShuttingDown = true) : s.ready = true := by
  rw [ready, h, Bool.or_true]

section Inside

variable [DecidableEq κ] [DecidableEq ι] {w : κ} {p : PopPhase} {i : ι} {q : PushPhase τ}

omit [DecidableEq ι] in
theorem inside_putWorker (h : (s.worker w).Inside → p.Inside) :
    ∀ l, s.Inside l → (s.putWorker w p).Inside l := by
  rintro (v | j) hl
  · by_cases e : v = w
    · subst e
      show ((s.putWorker v p).worker v).Inside
      rw [putWorker_same]
      exact h hl
    · show ((s.putWorker w p).worker v).Inside
      rw [putWorker_other e]
      exact hl
  · exact hl

omit [DecidableEq κ] in
theorem inside_putPusher (h : q ≠ .outside) : ∀ l, s.Inside l → (s.putPusher i q).Inside l := by
  rintro (v | j) hl
  · exact hl
  · by_cases e : j = i
    · subst e
      show (s.putPusher j q).pusher j ≠ .outside
      rwa [putPusher_same]
    · show Function.update s.pusher i q j ≠ .outside
      rw [Function.update_of_ne e]
      exact hl

omit [DecidableEq κ] [DecidableEq ι] in
theorem inside_wakeAll : ∀ l, s.Inside l → s.wakeAll.Inside l := by
  rintro (w | i) hl
  · show (if s.worker w = .waiting then PopPhase.woken else s.worker w).Inside
    rw [if_neg]
    · exact hl
    · intro hw
      rcases (show (s.worker w).Inside from hl) with e | e | e <;> cases hw.symm.trans e
  · exact hl

omit [DecidableEq ι] in
/-- A worker is where it was, if it is not where one has gone. -/
theorem putWorker_was {v : κ} {r : PopPhase} (hp : p ≠ r) (h : (s.putWorker w p).worker v = r) :
    s.worker v = r := by
  by_cases e : v = w
  · subst e
    exact absurd (putWorker_same.symm.trans h) hp
  · rwa [putWorker_other e] at h

end Inside

theorem wakeAll_was {w : κ} {r : PopPhase} (hr : r ≠ .woken) (h : s.wakeAll.worker w = r) :
    s.worker w = r := by
  replace h : (if s.worker w = .waiting then PopPhase.woken else s.worker w) = r := h
  split_ifs at h
  · exact absurd h.symm hr
  · exact h

section Step

variable [DecidableEq κ] [DecidableEq ι] [Fintype κ] {e : Event τ κ ι}

/-- **One step.** -/
theorem step_tidy (h : s.Tidy) (hi : s.Inv) (hs : s.step e = some s') : s'.Tidy := by
  cases e with
  | lockPush i task =>
    simp only [step] at hs
    split at hs
    · cases hs
      refine ⟨fun l hl => ?_, h.leaving, h.gone, h.called⟩
      cases hl
      show (s.putPusher i (.locked task)).pusher i ≠ .outside
      rw [putPusher_same]
      simp
    · cases hs
  | store i =>
    simp only [step] at hs
    split at hs
    · cases hs
      refine ⟨fun l hl => inside_putPusher (by simp) l (h.owned l hl), fun w hw => ?_, h.gone, h.called⟩
      exact ready_of_tasks (List.append_ne_nil_of_right_ne_nil _ (List.cons_ne_nil _ _))
    · cases hs
  | notifyOne i w =>
    simp only [step] at hs
    split at hs
    · rename_i w hi'
      split_ifs at hs with hw
      cases hs
      refine ⟨fun l hl => ?_, fun v hv => ?_, fun v hv => ?_, h.called⟩
      · refine inside_putWorker (fun hin => ?_) l (inside_putPusher (by simp) l (h.owned l hl))
        rcases (show (s.worker w).Inside from hin) with e | e | e <;> cases hw.symm.trans e
      · exact h.leaving v (putWorker_was (by simp) hv)
      · exact h.gone v (putWorker_was (by simp) hv)
    · split_ifs at hs
      cases hs
      exact ⟨fun l hl => inside_putPusher (by simp) l (h.owned l hl), h.leaving, h.gone, h.called⟩
    · cases hs
  | unlockPush i =>
    simp only [step] at hs
    split at hs
    · cases hs
      exact ⟨fun _ hl => (by cases hl), h.leaving, h.gone, h.called⟩
    · cases hs
  | lockPop w =>
    rw [step] at hs
    split_ifs at hs with hw
    cases hs
    refine ⟨fun l hl => ?_, fun v hv => ?_, fun v hv => ?_, h.called⟩
    · cases hl
      exact .inl putWorker_same
    · exact h.leaving v (putWorker_was (by simp) hv)
    · exact h.gone v (putWorker_was (by simp) hv)
  | check w =>
    rw [step] at hs
    split_ifs at hs with hw hready
    all_goals
      cases hs
      refine ⟨fun l hl => inside_putWorker (fun _ => ?_) l (h.owned l hl), fun v hv => ?_,
        fun v hv => ?_, h.called⟩
    · exact .inr (.inr rfl)
    · exact hready
    · exact h.gone v (putWorker_was (by simp) hv)
    · exact .inr (.inl rfl)
    · exact h.leaving v (putWorker_was (by simp) hv)
    · exact h.gone v (putWorker_was (by simp) hv)
  | block w =>
    rw [step] at hs
    split_ifs at hs with hw
    cases hs
    refine ⟨fun _ hl => (by cases hl), fun v hv => ?_, fun v hv => ?_, h.called⟩
    · exact h.leaving v (putWorker_was (by simp) hv)
    · exact h.gone v (putWorker_was (by simp) hv)
  | spurious w =>
    rw [step] at hs
    split_ifs at hs with hw
    cases hs
    refine ⟨fun l hl => ?_, fun v hv => ?_, fun v hv => ?_, h.called⟩
    · refine inside_putWorker (fun hin => ?_) l (h.owned l hl)
      rcases hin with e | e | e <;> cases hw.symm.trans e
    · exact h.leaving v (putWorker_was (by simp) hv)
    · exact h.gone v (putWorker_was (by simp) hv)
  | leave w =>
    rw [step] at hs
    split_ifs at hs with hw hflag
    · cases hs
      refine ⟨fun _ hl => (by cases hl), fun v _ => ready_of_flag hflag, fun _ _ => hflag, h.called⟩
    · split at hs
      · cases hs
      · cases hs
        refine ⟨fun _ hl => (by cases hl), fun v hv => ?_, fun v hv => ?_, h.called⟩
        · -- there is one worker behind `wait` at a time
          have hv' := putWorker_was (by simp) hv
          have hone := hi.held.unique (inside_worker hw (.inr (.inr rfl)))
            (inside_worker hv' (.inr (.inr rfl)))
          cases hone
          cases putWorker_same.symm.trans hv
        · exact h.gone v (putWorker_was (by simp) hv)
  | storeFlag =>
    rw [step] at hs
    split_ifs at hs
    cases hs
    exact ⟨h.owned, fun _ _ => ready_of_flag rfl, fun _ _ => rfl, fun _ => by simp⟩
  | notifyAll =>
    rw [step] at hs
    split_ifs at hs
    cases hs
    refine ⟨fun l hl => inside_wakeAll l (h.owned l hl), fun v hv => ?_, fun v hv => ?_,
      fun _ => by simp⟩
    · exact h.leaving v (wakeAll_was (by simp) hv)
    · exact h.gone v (wakeAll_was (by simp) hv)

end Step

/-! ### Every task once, in the order of the calls -/

theorem heldTask_pusher {i : ι} {p : PushPhase τ} (h : s.mutex = some (.pusher i))
    (hp : s.pusher i = p) : s.heldTask = held p := by
  rw [heldTask, h, ← hp]

/-- The thread inside goes on. -/
theorem heldTask_put [DecidableEq ι] {q : TaskQueue τ κ ι} {i : ι} {p : PushPhase τ}
    (hm : q.mutex = some (.pusher i)) (hp : q.pusher = (s.putPusher i p).pusher) :
    q.heldTask = held p := by
  refine heldTask_pusher hm ?_
  rw [hp, putPusher_same]

theorem heldTask_worker {w : κ} (h : s.mutex = some (.worker w)) : s.heldTask = [] := by
  rw [heldTask, h]

theorem heldTask_none (h : s.mutex = none) : s.heldTask = [] := by
  rw [heldTask, h]

namespace Log

variable {l l' : Log τ κ ι} {e : Event τ κ ι}

def start : Log τ κ ι := ⟨.start, [], []⟩

/-- A step of the queue, and what it adds. -/
def step [DecidableEq κ] [DecidableEq ι] [Fintype κ] (l : Log τ κ ι) (e : Event τ κ ι) :
    Option (Log τ κ ι) := do
  let queue ← l.queue.step e
  return ⟨queue, l.pushed ++ pushes e, l.popped ++ l.queue.pops e⟩

theorem step_elim [DecidableEq κ] [DecidableEq ι] [Fintype κ] (h : l.step e = some l') :
    ∃ queue, l.queue.step e = some queue ∧
      l' = ⟨queue, l.pushed ++ pushes e, l.popped ++ l.queue.pops e⟩ := by
  obtain ⟨queue, hq, h⟩ := Option.bind_eq_some_iff.mp h
  exact ⟨queue, hq, (Option.some.inj h).symm⟩

/-- **Nothing is lost, doubled or passed.** -/
def Exact (l : Log τ κ ι) : Prop :=
  l.pushed.map Prod.snd = l.popped.map Prod.snd ++ l.queue.tasks ++ l.queue.heldTask

/-- A step that neither begins nor ends a call. -/
theorem Exact.silent (h : l.Exact) {queue : TaskQueue τ κ ι} (hpush : pushes e = [])
    (hpop : l.queue.pops e = []) (ht : queue.tasks ++ queue.heldTask = l.queue.tasks ++ l.queue.heldTask) :
    Exact ⟨queue, l.pushed ++ pushes e, l.popped ++ l.queue.pops e⟩ := by
  rw [Exact, hpush, hpop, List.append_nil, List.append_nil, List.append_assoc, ht, ← List.append_assoc]
  exact h

/-- **One step.** -/
theorem step_exact [DecidableEq κ] [DecidableEq ι] [Fintype κ] (h : l.Exact) (hi : l.queue.Inv)
    (hs : l.step e = some l') : l'.Exact := by
  obtain ⟨queue, hq, rfl⟩ := step_elim hs
  cases e with
  | lockPush i task =>
    simp only [TaskQueue.step] at hq
    split at hq
    · rename_i hfree hi'
      cases hq
      have hnone : l.queue.heldTask = [] := heldTask_none hfree
      have hnew := heldTask_put (s := l.queue)
        (q := { l.queue.putPusher i (.locked task) with mutex := some (.pusher i) }) rfl rfl
      rw [Exact, hnone, List.append_nil] at h
      rw [Exact, hnew, List.map_append, h]
      show _ = (l.popped ++ []).map Prod.snd ++ l.queue.tasks ++ [task]
      rw [List.append_nil]
      rfl
    · cases hq
  | store i =>
    simp only [TaskQueue.step] at hq
    split at hq
    · rename_i task hi'
      cases hq
      -- the thread that stores is the one inside
      have hm : l.queue.mutex = some (.pusher i) := hi.held _ (inside_pusher hi' (by simp))
      have hold : l.queue.heldTask = [task] := heldTask_pusher hm hi'
      have hnew := heldTask_put (s := l.queue)
        (q := { l.queue.putPusher i .stored with tasks := l.queue.tasks ++ [task] }) hm rfl
      refine h.silent rfl rfl ?_
      rw [hold]
      exact (congrArg _ hnew).trans (List.append_nil _)
    · cases hq
  | notifyOne i w =>
    have hsame : ∀ queue : TaskQueue τ κ ι, l.queue.pusher i = .stored →
        queue.mutex = l.queue.mutex → queue.pusher = (l.queue.putPusher i .notified).pusher →
        queue.heldTask = l.queue.heldTask := by
      intro queue hi' hmutex hpusher
      have hm : l.queue.mutex = some (.pusher i) := hi.held _ (inside_pusher hi' (by simp))
      rw [heldTask_pusher hm hi', heldTask_put (hmutex.trans hm) hpusher]
      rfl
    simp only [TaskQueue.step] at hq
    split at hq
    · rename_i w hi'
      split_ifs at hq
      cases hq
      exact h.silent rfl rfl (congrArg (l.queue.tasks ++ ·) (hsame _ hi' rfl rfl))
    · rename_i hi'
      split_ifs at hq
      cases hq
      exact h.silent rfl rfl (congrArg (l.queue.tasks ++ ·) (hsame _ hi' rfl rfl))
    · cases hq
  | unlockPush i =>
    simp only [TaskQueue.step] at hq
    split at hq
    · rename_i hi'
      cases hq
      have hm : l.queue.mutex = some (.pusher i) := hi.held _ (inside_pusher hi' (by simp))
      have hold : l.queue.heldTask = [] := heldTask_pusher hm hi'
      refine h.silent rfl rfl ?_
      rw [hold]
      rfl
    · cases hq
  | lockPop w =>
    rw [TaskQueue.step] at hq
    split_ifs at hq with hw
    cases hq
    refine h.silent rfl rfl ?_
    rw [heldTask_none hw.1]
    rfl
  | check w | spurious w =>
    rw [TaskQueue.step] at hq
    split_ifs at hq
    all_goals
      cases hq
      exact h.silent rfl rfl rfl
  | block w =>
    rw [TaskQueue.step] at hq
    split_ifs at hq with hw
    cases hq
    have hm : l.queue.mutex = some (.worker w) := hi.held _ (inside_worker hw (.inr (.inl rfl)))
    refine h.silent rfl rfl ?_
    rw [heldTask_worker hm]
    rfl
  | leave w =>
    rw [TaskQueue.step] at hq
    split_ifs at hq with hw hflag
    · have hm : l.queue.mutex = some (.worker w) := hi.held _ (inside_worker hw (.inr (.inr rfl)))
      cases hq
      refine h.silent rfl (if_pos hflag) ?_
      rw [heldTask_worker hm]
      rfl
    · split at hq
      · cases hq
      · rename_i task tasks ht
        have hm : l.queue.mutex = some (.worker w) :=
          hi.held _ (inside_worker hw (.inr (.inr rfl)))
        cases hq
        have hpop : l.queue.pops (.leave w : Event τ κ ι) = [(w, task)] := by
          rw [pops, if_neg hflag, ht]
          rfl
        rw [Exact, heldTask_worker hm, ht] at h
        rw [Exact, hpop, heldTask_none rfl]
        show (l.pushed ++ []).map Prod.snd = (l.popped ++ [(w, task)]).map Prod.snd ++ tasks ++ []
        rw [List.append_nil, h]
        simp
  | storeFlag =>
    rw [TaskQueue.step] at hq
    split_ifs at hq
    cases hq
    exact h.silent rfl rfl rfl
  | notifyAll =>
    rw [TaskQueue.step] at hq
    split_ifs at hq
    cases hq
    exact h.silent rfl rfl rfl

end Log

/-! ### How far the threads can go -/

/-- Everything but another call of `Push` or `Shutdown`, and a spurious wake-up. -/
def Goes (s : TaskQueue τ κ ι) (e : Event τ κ ι) : Prop :=
  s.Noticed e ∧ match e with
    | .lockPush .. | .spurious _ | .storeFlag => False
    | _ => True

/-- The steps a worker can take before it waits. -/
def popWork : PopPhase → Nat
  | .waiting | .gone => 0
  | .blocking => 1
  | .leaving => 2
  | .checking => 3
  | .woken | .outside => 4

/-- Those of a thread in `Push`, with what the worker does that it wakes. -/
def pushWork : PushPhase τ → Nat
  | .outside => 0
  | .notified => 1
  | .stored => 6
  | .locked _ => 10

/-- That of the thread inside `Push`. -/
def heldWork (s : TaskQueue τ κ ι) : Nat :=
  match s.mutex with
  | some (.pusher i) => pushWork (s.pusher i)
  | _ => 0

/-- That of `notify_all`, with what the workers do that it wakes. -/
def wakeWork [Fintype κ] (s : TaskQueue τ κ ι) : Nat :=
  if s.shutdown = .stored then 4 * Fintype.card κ + 1 else 0

/-- How many steps the threads can take; a worker that takes a task comes back for another. -/
def work [Fintype κ] (s : TaskQueue τ κ ι) : Nat :=
  3 * s.tasks.length + total popWork s.worker + s.heldWork + s.wakeWork

theorem heldWork_pusher {i : ι} {p : PushPhase τ} (h : s.mutex = some (.pusher i))
    (hp : s.pusher i = p) : s.heldWork = pushWork p := by
  rw [heldWork, h, ← hp]

theorem heldWork_put [DecidableEq ι] {q : TaskQueue τ κ ι} {i : ι} {p : PushPhase τ}
    (hm : q.mutex = some (.pusher i)) (hp : q.pusher = (s.putPusher i p).pusher) :
    q.heldWork = pushWork p := by
  refine heldWork_pusher hm ?_
  rw [hp, putPusher_same]

theorem heldWork_worker {w : κ} (h : s.mutex = some (.worker w)) : s.heldWork = 0 := by
  rw [heldWork, h]

theorem heldWork_none (h : s.mutex = none) : s.heldWork = 0 := by
  rw [heldWork, h]

section Work

variable [Fintype κ]

theorem wakeAll_work : total popWork s.wakeAll.worker ≤ 4 * Fintype.card κ := by
  have h : ∀ w, popWork (s.wakeAll.worker w) ≤ 4 := by
    intro w
    cases s.wakeAll.worker w <;> simp [popWork]
  calc total popWork s.wakeAll.worker ≤ ∑ _w : κ, 4 := Finset.sum_le_sum fun w _ => h w
    _ = 4 * Fintype.card κ := by rw [Finset.sum_const_nat fun _ _ => rfl, Finset.card_univ, mul_comm]

variable [DecidableEq κ] [DecidableEq ι] {e : Event τ κ ι}

omit [DecidableEq ι] in
theorem putWorker_work (w : κ) (p : PopPhase) :
    total popWork (s.putWorker w p).worker + popWork (s.worker w) =
      total popWork s.worker + popWork p :=
  total_update popWork s.worker w p

omit [DecidableEq ι] in
/-- A worker goes on, and no thread is inside `Push`. -/
theorem work_worker {w : κ} {p : PopPhase} (h : s.heldWork = 0) (h' : s'.heldWork = 0)
    (hw : s'.worker = (s.putWorker w p).worker) (hk : s'.wakeWork = s.wakeWork)
    (hlt : 3 * s'.tasks.length + popWork p < 3 * s.tasks.length + popWork (s.worker w)) :
    s'.work < s.work := by
  have hsum := putWorker_work (s := s) w p
  rw [work, work, h, h', hw, hk]
  omega

omit [DecidableEq κ] in
/-- The thread inside `Push` goes on. -/
theorem work_pusher {i : ι} {p q : PushPhase τ} (hi : s.Inv) (hp : s.pusher i = p) (hin : p ≠ .outside)
    (hm : s'.mutex = s.mutex) (hp' : s'.pusher = (s.putPusher i q).pusher)
    (hk : s'.wakeWork = s.wakeWork)
    (hlt : 3 * s'.tasks.length + total popWork s'.worker + pushWork q <
      3 * s.tasks.length + total popWork s.worker + pushWork p) : s'.work < s.work := by
  have hlocked : s.mutex = some (.pusher i) := hi.held _ (inside_pusher hp hin)
  rw [work, work, heldWork_pusher hlocked hp, heldWork_put (hm.trans hlocked) hp', hk]
  omega

/-- **One step.** -/
theorem step_work (hi : s.Inv) (hok : s.Goes e) (hs : s.step e = some s') : s'.work < s.work := by
  cases e with
  | lockPush i task => exact hok.2.elim
  | spurious w => exact hok.2.elim
  | storeFlag => exact hok.2.elim
  | store i =>
    simp only [step] at hs
    split at hs
    · rename_i task hi'
      cases hs
      refine work_pusher hi hi' (by simp) rfl rfl rfl ?_
      show 3 * (s.tasks ++ [task]).length + total popWork s.worker + 6 < _ + 10
      rw [List.length_append, List.length_singleton]
      omega
    · cases hs
  | notifyOne i w =>
    simp only [step] at hs
    split at hs
    · rename_i w hi'
      split_ifs at hs with hw
      cases hs
      refine work_pusher hi hi' (by simp) rfl rfl rfl ?_
      have hsum := putWorker_work (s := s.putPusher i .notified) w .woken
      rw [show (s.putPusher i .notified).worker w = .waiting from hw] at hsum
      -- the worker that is woken was waiting
      replace hsum : total popWork ((s.putPusher i .notified).putWorker w .woken).worker + 0 =
        total popWork s.worker + 4 := hsum
      show 3 * s.tasks.length + total popWork ((s.putPusher i .notified).putWorker w .woken).worker + 1 <
        3 * s.tasks.length + total popWork s.worker + 6
      omega
    · rename_i hi'
      split_ifs at hs
      cases hs
      refine work_pusher hi hi' (by simp) rfl rfl rfl ?_
      exact Nat.add_lt_add_left (by decide : 1 < 6) _
    · cases hs
  | unlockPush i =>
    simp only [step] at hs
    split at hs
    · rename_i hi'
      cases hs
      have hm : s.mutex = some (.pusher i) := hi.held _ (inside_pusher hi' (by simp))
      rw [work, work, heldWork_pusher hm hi']
      exact Nat.add_lt_add_right (Nat.add_lt_add_left (by decide : 0 < 1) _) _
    · cases hs
  | lockPop w =>
    rw [step] at hs
    split_ifs at hs with hw
    cases hs
    refine work_worker (heldWork_none hw.1) (heldWork_worker rfl) rfl rfl ?_
    rcases hw.2 with e | e <;> rw [e] <;> exact Nat.add_lt_add_left (by decide : 3 < 4) _
  | check w =>
    rw [step] at hs
    split_ifs at hs with hw hready
    all_goals
      cases hs
      have hm : s.mutex = some (.worker w) := hi.held _ (inside_worker hw (.inl rfl))
      refine work_worker (heldWork_worker hm) (heldWork_worker hm) rfl rfl ?_
      rw [hw]
    · exact Nat.add_lt_add_left (by decide : 2 < 3) _
    · exact Nat.add_lt_add_left (by decide : 1 < 3) _
  | block w =>
    rw [step] at hs
    split_ifs at hs with hw
    cases hs
    have hm : s.mutex = some (.worker w) := hi.held _ (inside_worker hw (.inr (.inl rfl)))
    refine work_worker (heldWork_worker hm) (heldWork_none rfl) rfl rfl ?_
    rw [hw]
    exact Nat.add_lt_add_left (by decide : 0 < 1) _
  | leave w =>
    rw [step] at hs
    split_ifs at hs with hw hflag
    · cases hs
      have hm : s.mutex = some (.worker w) := hi.held _ (inside_worker hw (.inr (.inr rfl)))
      refine work_worker (heldWork_worker hm) (heldWork_none rfl) rfl rfl ?_
      rw [hw]
      exact Nat.add_lt_add_left (by decide : 0 < 2) _
    · split at hs
      · cases hs
      · rename_i task tasks ht
        cases hs
        have hm : s.mutex = some (.worker w) := hi.held _ (inside_worker hw (.inr (.inr rfl)))
        refine work_worker (heldWork_worker hm) (heldWork_none rfl) rfl rfl ?_
        rw [hw, ht, List.length_cons]
        show 3 * tasks.length + 4 < 3 * (tasks.length + 1) + 2
        omega
  | notifyAll =>
    rw [step] at hs
    split_ifs at hs with hstored
    cases hs
    have hsum := wakeAll_work (s := s)
    rw [work, work, show s.wakeWork = 4 * Fintype.card κ + 1 from if_pos hstored]
    show 3 * s.tasks.length + total popWork s.wakeAll.worker + s.heldWork + 0 <
      3 * s.tasks.length + total popWork s.worker + s.heldWork + (4 * Fintype.card κ + 1)
    omega

/-- None of them is the store of the flag. -/
theorem step_flag (hok : s.Goes e) (hs : s.step e = some s') : s'.isShuttingDown = s.isShuttingDown := by
  cases e with
  | lockPush i task => exact hok.2.elim
  | storeFlag => exact hok.2.elim
  | store i | unlockPush i =>
    simp only [step] at hs
    split at hs
    · cases hs
      rfl
    · cases hs
  | notifyOne i w =>
    simp only [step] at hs
    split at hs
    · split_ifs at hs
      cases hs
      rfl
    · split_ifs at hs
      cases hs
      rfl
    · cases hs
  | lockPop w | check w | block w | spurious w | notifyAll =>
    rw [step] at hs
    split_ifs at hs
    all_goals
      cases hs
      rfl
  | leave w =>
    rw [step] at hs
    split_ifs at hs
    · cases hs
      rfl
    · split at hs
      · cases hs
      · cases hs
        rfl

/-! ### Where they stop -/

/-- Whoever is inside can go on. -/
theorem inside_goes {l : Locker κ ι} (ht : s.Tidy) (hl : s.Inside l) :
    ∃ e, s.Goes e ∧ s.step e ≠ none := by
  rcases l with w | i
  · rcases (show (s.worker w).Inside from hl) with hw | hw | hw
    · refine ⟨.check w, ⟨trivial, trivial⟩, ?_⟩
      rw [step, if_pos hw]
      simp
    · refine ⟨.block w, ⟨trivial, trivial⟩, ?_⟩
      rw [step, if_pos hw]
      simp
    · refine ⟨.leave w, ⟨trivial, trivial⟩, ?_⟩
      rw [step, if_pos hw]
      split_ifs with hflag
      · simp
      · -- the predicate still holds
        have hready := ht.leaving w hw
        rw [ready, Bool.eq_false_iff.mpr hflag, Bool.or_false, Bool.not_eq_true'] at hready
        obtain ⟨task, tasks, htasks⟩ := List.ne_nil_iff_exists_cons.mp (List.isEmpty_eq_false_iff.mp hready)
        rw [htasks]
        simp
  · cases hi : s.pusher i with
    | outside => exact absurd hi hl
    | locked task =>
      refine ⟨.store i, ⟨trivial, trivial⟩, ?_⟩
      simp [step, hi]
    | stored =>
      by_cases hw : ∃ w, s.worker w = .waiting
      · obtain ⟨w, hw⟩ := hw
        refine ⟨.notifyOne i (some w), ⟨trivial, trivial⟩, ?_⟩
        simp [step, hi, hw]
      · refine ⟨.notifyOne i none, ⟨trivial, trivial⟩, ?_⟩
        simp [step, hi, not_exists.mp hw]
    | notified =>
      refine ⟨.unlockPush i, ⟨trivial, trivial⟩, ?_⟩
      simp [step, hi]

/-- When nobody can go on, nobody is inside, and the workers wait or have ended. -/
theorem stopped_workers (ht : s.Tidy) (hstop : Stopped step Goes s) :
    s.mutex = none ∧ (∀ l, ¬ s.Inside l) ∧ ∀ w, s.worker w = .waiting ∨ s.worker w = .gone := by
  have hout : ∀ l, ¬ s.Inside l := by
    intro l hl
    obtain ⟨e, he, hne⟩ := inside_goes ht hl
    exact hne (hstop e he)
  have hm : s.mutex = none := by
    by_contra h
    obtain ⟨l, hl⟩ := Option.ne_none_iff_exists'.mp h
    exact hout l (ht.owned l hl)
  refine ⟨hm, hout, fun w => ?_⟩
  have hpop := hstop (.lockPop w) ⟨trivial, trivial⟩
  have hin : ¬ (s.worker w).Inside := hout (.worker w)
  rw [step] at hpop
  cases hw : s.worker w with
  | waiting => exact .inl rfl
  | gone => exact .inr rfl
  | outside => simp [hm, hw] at hpop
  | woken => simp [hm, hw] at hpop
  | checking => exact absurd (.inl hw) hin
  | blocking => exact absurd (.inr (.inl hw)) hin
  | leaving => exact absurd (.inr (.inr hw)) hin

/-- Without `Shutdown` the queue is empty then, and with it all workers have ended. -/
theorem stopped_drained (hi : s.Inv) (ht : s.Tidy) (htold : s.Told) (hstop : Stopped step Goes s) :
    s.heldTask = [] ∧ if s.isShuttingDown then ∀ w, s.worker w = .gone
      else s.tasks = [] ∧ ∀ w, s.worker w = .waiting := by
  obtain ⟨hm, hout, hworkers⟩ := stopped_workers ht hstop
  refine ⟨heldTask_none hm, ?_⟩
  split_ifs with hflag
  · have hreturned : s.shutdown = .returned := by
      cases hsd : s.shutdown with
      | before => exact absurd hsd (ht.called hflag)
      | returned => rfl
      | stored =>
        have hall := hstop .notifyAll ⟨fun w hw => hout (.worker w) (.inr (.inl hw)), trivial⟩
        simp [step, hsd] at hall
    exact fun w => (hworkers w).resolve_left (htold hreturned w).1
  · have hwaiting : ∀ w, s.worker w = .waiting :=
      fun w => (hworkers w).resolve_right fun hw => hflag (ht.gone w hw)
    refine ⟨?_, hwaiting⟩
    by_contra htasks
    rcases hi.awake htasks with ⟨w, hw⟩ | ⟨i, hi'⟩
    · exact hw (hwaiting w)
    · exact hout (.pusher i) (by
        show s.pusher i ≠ .outside
        rw [hi']
        simp)

end Work

namespace Log

variable [DecidableEq κ] [DecidableEq ι] [Fintype κ] {l l' : Log τ κ ι} {e : Event τ κ ι}
  {es : List (Event τ κ ι)}

/-- The invariants of the queue and of its history. -/
structure Fine (l : Log τ κ ι) : Prop where
  inv : l.queue.Inv
  tidy : l.queue.Tidy
  told : l.queue.Told
  exact : l.Exact

omit [DecidableEq κ] [DecidableEq ι] [Fintype κ] in
theorem start_fine : (start : Log τ κ ι).Fine :=
  ⟨start_inv, start_tidy, (fun h => by cases h), rfl⟩

theorem Fine.step [Nonempty κ] (h : l.Fine) (hok : l.queue.Noticed e) (hs : l.step e = some l') :
    l'.Fine := by
  have hexact := step_exact h.exact h.inv hs
  obtain ⟨queue, hq, rfl⟩ := step_elim hs
  exact ⟨step_inv h.inv hq, step_tidy h.tidy h.inv hq, step_told h.inv h.told hok hq, hexact⟩

/-- The threads' own steps. -/
def Goes (l : Log τ κ ι) (e : Event τ κ ι) : Prop := l.queue.Goes e

theorem lowers [Nonempty κ] : Lowers (step (τ := τ) (κ := κ) (ι := ι)) Goes Fine (·.queue.work) where
  keeps _ _ _ h hok hs := h.step hok.1 hs
  lower l e l' h hok hs := by
    obtain ⟨queue, hq, rfl⟩ := step_elim hs
    exact step_work h.inv hok hq

theorem stopped_queue (h : Stopped step Goes l) : Stopped TaskQueue.step TaskQueue.Goes l.queue := by
  intro e he
  have hnone := h e he
  rw [step] at hnone
  cases hq : l.queue.step e with
  | none => rfl
  | some queue =>
    rw [hq] at hnone
    cases hnone

/-- The threads' own steps begin no call, of `Push` or of `Shutdown`. -/
theorem goes_same {t : Log τ κ ι} (r : Runs step Goes l es t) :
    t.pushed = l.pushed ∧ t.queue.isShuttingDown = l.queue.isShuttingDown := by
  refine r.invariant (I := fun t => t.pushed = l.pushed ∧
    t.queue.isShuttingDown = l.queue.isShuttingDown) ⟨rfl, rfl⟩ fun a e b ha hok hs => ?_
  obtain ⟨queue, hq, rfl⟩ := step_elim hs
  have hpush : pushes e = [] := by
    cases e with
    | lockPush i task => exact hok.2.elim
    | _ => rfl
  refine ⟨?_, (step_flag hok hq).trans ha.2⟩
  rw [← ha.1, hpush]
  exact List.append_nil _

/-- **The queue is drained.**  In every run in which no worker is between its check and its blocking
while `notify_all` is called, the tasks returned by `Pop`, those queued and the one being stored are
those given to `Push`, once each and in the order of the calls.  From there on the threads can take
`work` steps of their own at most, in any order; and when none is left, all workers have ended if
`Shutdown` has been called, and otherwise every task has been returned and all workers wait. -/
theorem tasks_drained [Nonempty κ] (r : Runs step (fun l e => l.queue.Noticed e) start es l) :
    l.pushed.map Prod.snd = l.popped.map Prod.snd ++ l.queue.tasks ++ l.queue.heldTask ∧
      (∃ fs t, Runs step Goes l fs t ∧ Stopped step Goes t) ∧
      ∀ fs t, Runs step Goes l fs t → fs.length ≤ l.queue.work ∧
        (Stopped step Goes t → if l.queue.isShuttingDown then ∀ w, t.queue.worker w = .gone
          else t.popped.map Prod.snd = l.pushed.map Prod.snd ∧ ∀ w, t.queue.worker w = .waiting) := by
  have hl : l.Fine := r.invariant start_fine fun _ _ _ h hok hs => h.step hok hs
  refine ⟨hl.exact, exists_stopped lowers hl, fun fs t r' => ⟨?_, fun hstop => ?_⟩⟩
  · have := r'.length_le lowers hl
    omega
  · have ht : t.Fine := r'.invariant hl lowers.keeps
    obtain ⟨hheld, hend⟩ := stopped_drained ht.inv ht.tidy ht.told (stopped_queue hstop)
    obtain ⟨hpushed, hflag⟩ := goes_same r'
    have hexact := ht.exact
    rw [hflag] at hend
    split_ifs at hend ⊢
    · exact hend
    · rw [Exact, hheld, hend.1, List.append_nil, List.append_nil, hpushed] at hexact
      exact ⟨hexact.symm, hend.2⟩

/-- A worker waits, and a task is pushed. -/
theorem tasks_drained_one : ∃ l : Log Nat (Fin 1) (Fin 1),
    Runs step (fun l e => l.queue.Noticed e) start
        [.lockPop 0, .check 0, .block 0, .lockPush 0 7, .store 0] l ∧
      ∃ fs t, Runs step Goes l fs t ∧ t.popped.map Prod.snd = [7] := by
  have hexec : (execIf (fun (l : Log Nat (Fin 1) (Fin 1)) e => decide (l.queue.Noticed e)) step start
      [.lockPop 0, .check 0, .block 0, .lockPush 0 7, .store 0]).map
        (fun l => (l.queue.isShuttingDown, l.pushed)) = some (false, [(0, 7)]) := by
    decide
  obtain ⟨l, hs, heq⟩ := Option.map_eq_some_iff.mp hexec
  obtain ⟨hflag, hpushed⟩ := Prod.mk.inj heq
  have r : Runs step (fun (l : Log Nat (Fin 1) (Fin 1)) e => l.queue.Noticed e) start
      [.lockPop 0, .check 0, .block 0, .lockPush 0 7, .store 0] l :=
    Runs.of_execIf (I := fun _ => True) (fun _ _ _ h => of_decide_eq_true h)
      (fun _ _ _ _ _ _ => trivial) trivial hs
  obtain ⟨-, ⟨fs, t, r', hstop⟩, hall⟩ := tasks_drained r
  have hend := (hall fs t r').2 hstop
  rw [hflag, if_neg Bool.false_ne_true, hpushed] at hend
  exact ⟨l, r, fs, t, r', hend.1⟩

end Log

end TaskQueue

end IocpServer
