import IocpServer.Support.Runs
import Mathlib.Data.Fintype.Basic
import Mathlib.Logic.Function.Basic

/-!
# Server — TaskQueue

`Server/TaskQueue.hpp`: calls of `Push` by any threads, the workers' calls of `Pop`, and the one
call of `Shutdown` in `~PacketHandler`, in any interleaving.

`cv_.wait(lock, pred)` is a check of the predicate under the mutex, then a release and a block in
one step, until a notification or nothing at all wakes the worker.

* `Held`, `Awake`: what keeps a wake-up by `Push` from being lost.
* `no_lost_wakeup`: and when one by `Shutdown` is not lost either.
* `shutdown_misses_worker`: one that is.
-/

namespace IocpServer

/-- Where a thread is in a call of `Push`: before its turn at the mutex, with the task it has to
store, with the task stored, or at the end of `lock`. -/
inductive PushPhase (τ : Type) where
  | outside
  | locked (task : τ)
  | stored
  | notified
  deriving DecidableEq

/-- Where a worker is: executing a task or at the start of `Pop`; about to evaluate the predicate;
about to block, the predicate having been false; blocked; woken; behind `wait`; or at the end of
`WorkerThreadFunc`. -/
inductive PopPhase where
  | outside
  | checking
  | blocking
  | waiting
  | woken
  | leaving
  | gone
  deriving DecidableEq

/-- `Shutdown`: not called, `isShuttingDown_` stored, or returned. -/
inductive ShutdownPhase where
  | before
  | stored
  | returned
  deriving DecidableEq

/-- Who has locked `mutex_`. -/
inductive Locker (κ ι : Type) where
  | worker (w : κ)
  | pusher (i : ι)
  deriving DecidableEq

/-- Inside the critical section of `Push`. -/
def PushPhase.Inside {τ : Type} (p : PushPhase τ) : Prop := p ≠ .outside

/-- Inside that of `Pop`. -/
def PopPhase.Inside (p : PopPhase) : Prop := p = .checking ∨ p = .blocking ∨ p = .leaving

/-- `TaskQueue`, with the workers `κ` and the threads `ι` that push. -/
structure TaskQueue (τ κ ι : Type) where
  tasks : List τ
  mutex : Option (Locker κ ι)
  isShuttingDown : Bool
  shutdown : ShutdownPhase
  worker : κ → PopPhase
  pusher : ι → PushPhase τ

namespace TaskQueue

variable {τ κ ι : Type}

def start : TaskQueue τ κ ι := ⟨[], none, false, .before, fun _ => .outside, fun _ => .outside⟩

/-- The predicate of `wait`. -/
def ready (s : TaskQueue τ κ ι) : Bool := !s.tasks.isEmpty || s.isShuttingDown

inductive Event (τ κ ι : Type) where
  /-- `Push`: the lock. -/
  | lockPush (i : ι) (task : τ)
  /-- `tasks_.push`. -/
  | store (i : ι)
  /-- `cv_.notify_one()`, and the worker it wakes. -/
  | notifyOne (i : ι) (w : Option κ)
  | unlockPush (i : ι)
  /-- `Pop`: the lock, on entry or after a wake-up. -/
  | lockPop (w : κ)
  | check (w : κ)
  /-- The mutex is released and the worker blocks. -/
  | block (w : κ)
  /-- A worker wakes up without a notification. -/
  | spurious (w : κ)
  /-- The rest of `Pop` behind `wait`, with the unlock. -/
  | leave (w : κ)
  /-- `isShuttingDown_.store(true)`. -/
  | storeFlag
  /-- `cv_.notify_all()`. -/
  | notifyAll

section Step

variable [DecidableEq κ] [DecidableEq ι]

/-- The worker `w` is in the phase `p`. -/
def putWorker (s : TaskQueue τ κ ι) (w : κ) (p : PopPhase) : TaskQueue τ κ ι :=
  { s with worker := Function.update s.worker w p }

/-- The thread `i` is in the phase `p`. -/
def putPusher (s : TaskQueue τ κ ι) (i : ι) (p : PushPhase τ) : TaskQueue τ κ ι :=
  { s with pusher := Function.update s.pusher i p }

/-- A notification for all that wait. -/
def wakeAll (s : TaskQueue τ κ ι) : TaskQueue τ κ ι :=
  { s with worker := fun w => if s.worker w = .waiting then .woken else s.worker w }

def step [Fintype κ] (s : TaskQueue τ κ ι) : Event τ κ ι → Option (TaskQueue τ κ ι)
  | .lockPush i task =>
      match s.mutex, s.pusher i with
      | none, .outside => some { s.putPusher i (.locked task) with mutex := some (.pusher i) }
      | _, _ => none
  | .store i =>
      match s.pusher i with
      | .locked task => some { s.putPusher i .stored with tasks := s.tasks ++ [task] }
      | _ => none
  | .notifyOne i w =>
      match s.pusher i, w with
      | .stored, some w =>
          if s.worker w = .waiting then some ((s.putPusher i .notified).putWorker w .woken) else none
      | .stored, none => if ∀ w, s.worker w ≠ .waiting then some (s.putPusher i .notified) else none
      | _, _ => none
  | .unlockPush i =>
      match s.pusher i with
      | .notified => some { s.putPusher i .outside with mutex := none }
      | _ => none
  | .lockPop w =>
      if s.mutex = none ∧ (s.worker w = .outside ∨ s.worker w = .woken) then
        some { s.putWorker w .checking with mutex := some (.worker w) }
      else none
  | .check w =>
      if s.worker w = .checking then
        some (s.putWorker w (if s.ready then .leaving else .blocking))
      else none
  | .block w =>
      if s.worker w = .blocking then some { s.putWorker w .waiting with mutex := none } else none
  | .spurious w => if s.worker w = .waiting then some (s.putWorker w .woken) else none
  | .leave w =>
      if s.worker w = .leaving then
        if s.isShuttingDown then
          -- `return nullptr`, and the worker's loop ends
          some { s.putWorker w .gone with mutex := none }
        else match s.tasks with
          | [] => none
          | _ :: tasks => some { s.putWorker w .outside with mutex := none, tasks }
      else none
  | .storeFlag =>
      if s.shutdown = .before then some { s with isShuttingDown := true, shutdown := .stored }
      else none
  | .notifyAll =>
      if s.shutdown = .stored then some { s.wakeAll with shutdown := .returned } else none

end Step

/-! ### Lost wake-ups -/

/-- `Shutdown` has returned and a worker is blocked. -/
def MissedShutdown (s : TaskQueue τ κ ι) : Prop :=
  s.shutdown = .returned ∧ ∃ w, s.worker w = .waiting

/-- There is a task, all workers are blocked, and no `Push` has its notification still to come. -/
def MissedPush (s : TaskQueue τ κ ι) : Prop :=
  s.tasks ≠ [] ∧ (∀ w, s.worker w = .waiting) ∧ ∀ i, s.pusher i ≠ .stored

/-- No worker is between its check of the predicate and its blocking while `notify_all` is
called. -/
def Noticed (s : TaskQueue τ κ ι) : Event τ κ ι → Prop
  | .notifyAll => ∀ w, s.worker w ≠ .blocking
  | _ => True

instance [Fintype κ] (s : TaskQueue τ κ ι) : (e : Event τ κ ι) → Decidable (s.Noticed e)
  | .notifyAll => inferInstanceAs (Decidable (∀ w, s.worker w ≠ .blocking))
  | .lockPush .. | .store _ | .notifyOne .. | .unlockPush _ | .lockPop _ | .check _ | .block _
  | .spurious _ | .leave _ | .storeFlag => inferInstanceAs (Decidable True)

/-! ### The mutex -/

variable {s s' : TaskQueue τ κ ι} {l : Locker κ ι}

/-- A thread is inside its critical section. -/
def InsideOf (worker : κ → PopPhase) (pusher : ι → PushPhase τ) : Locker κ ι → Prop
  | .worker w => (worker w).Inside
  | .pusher i => (pusher i).Inside

def Inside (s : TaskQueue τ κ ι) (l : Locker κ ι) : Prop := InsideOf s.worker s.pusher l

/-- Who is inside a critical section has locked the mutex. -/
def Held (s : TaskQueue τ κ ι) : Prop := ∀ l, s.Inside l → s.mutex = some l

theorem Held.stays (h : s.Held) (hm : s'.mutex = s.mutex) (hin : ∀ l, s'.Inside l → s.Inside l) :
    s'.Held := by
  intro l hl
  rw [hm]
  exact h l (hin l hl)

theorem Held.enters (h : s.Held) (hfree : s.mutex = none) (hm : s'.mutex = some l)
    (hin : ∀ l' ≠ l, s'.Inside l' → s.Inside l') : s'.Held := by
  intro l' hl'
  by_cases e : l' = l
  · rw [hm, e]
  · have hlocked := h l' (hin l' e hl')
    rw [hfree] at hlocked
    cases hlocked

theorem Held.exits (h : s.Held) (hl : s.Inside l) (hout : ¬ s'.Inside l)
    (hin : ∀ l' ≠ l, s'.Inside l' → s.Inside l') : s'.Held := by
  intro l' hl'
  by_cases e : l' = l
  · exact absurd (e ▸ hl') hout
  · have hlocked := h l' (hin l' e hl')
    rw [h l hl] at hlocked
    exact absurd (Option.some.inj hlocked).symm e

theorem inside_worker {w : κ} {p : PopPhase} (hw : s.worker w = p) (hp : p.Inside) :
    s.Inside (.worker w) := by
  show (s.worker w).Inside
  rw [hw]
  exact hp

theorem inside_pusher {i : ι} {p : PushPhase τ} (hi : s.pusher i = p) (hp : p ≠ .outside) :
    s.Inside (.pusher i) := fun e => hp (hi.symm.trans e)

/-- Two threads are not inside at once. -/
theorem Held.unique (h : s.Held) {l' : Locker κ ι} (hl : s.Inside l) (hl' : s.Inside l') : l = l' :=
  Option.some.inj ((h l hl).symm.trans (h l' hl'))

section Worker

variable [DecidableEq κ] {w : κ} {p : PopPhase}

theorem putWorker_inside (hp : p.Inside → (s.worker w).Inside) :
    ∀ l, (s.putWorker w p).Inside l → s.Inside l := by
  rintro (v | i) hl
  · by_cases e : v = w
    · subst e
      refine hp ?_
      simpa [Inside, InsideOf, putWorker] using hl
    · simpa [Inside, InsideOf, putWorker, e] using hl
  · exact hl

theorem putWorker_inside_other : ∀ l ≠ .worker w, (s.putWorker w p).Inside l → s.Inside l := by
  rintro (v | i) hne hl
  · have e : v ≠ w := fun e => hne (e ▸ rfl)
    simpa [Inside, InsideOf, putWorker, e] using hl
  · exact hl

@[simp] theorem putWorker_same : (s.putWorker w p).worker w = p := Function.update_self ..

theorem putWorker_other {v : κ} (h : v ≠ w) : (s.putWorker w p).worker v = s.worker v :=
  Function.update_of_ne h ..

theorem putWorker_blocking {v : κ} (hp : p ≠ .blocking)
    (h : (s.putWorker w p).worker v = .blocking) : s.worker v = .blocking := by
  by_cases e : v = w
  · subst e
    exact absurd (putWorker_same.symm.trans h) hp
  · rwa [putWorker_other e] at h

end Worker

theorem wakeAll_awake (w : κ) : s.wakeAll.worker w ≠ .waiting := by
  show (if s.worker w = .waiting then PopPhase.woken else s.worker w) ≠ .waiting
  split_ifs with hw
  · simp
  · exact hw

theorem wakeAll_blocking {w : κ} (h : s.wakeAll.worker w = .blocking) : s.worker w = .blocking := by
  replace h : (if s.worker w = .waiting then PopPhase.woken else s.worker w) = .blocking := h
  split_ifs at h
  exact h

theorem wakeAll_inside : ∀ l, s.wakeAll.Inside l → s.Inside l := by
  rintro (w | i) hl
  · replace hl : (if s.worker w = .waiting then PopPhase.woken else s.worker w).Inside := hl
    split_ifs at hl
    · rcases hl with e | e | e <;> cases e
    · exact hl
  · exact hl

section Pusher

variable [DecidableEq ι] {i : ι} {p : PushPhase τ}

theorem putPusher_inside (hp : p.Inside → (s.pusher i).Inside) :
    ∀ l, (s.putPusher i p).Inside l → s.Inside l := by
  rintro (v | j) hl
  · exact hl
  · by_cases e : j = i
    · subst e
      refine hp ?_
      simpa [Inside, InsideOf, putPusher] using hl
    · simpa [Inside, InsideOf, putPusher, e] using hl

theorem putPusher_inside_other : ∀ l ≠ .pusher i, (s.putPusher i p).Inside l → s.Inside l := by
  rintro (v | j) hne hl
  · exact hl
  · have e : j ≠ i := fun e => hne (e ▸ rfl)
    simpa [Inside, InsideOf, putPusher, e] using hl

@[simp] theorem putPusher_same : (s.putPusher i p).pusher i = p := Function.update_self ..

/-- A thread that has stored its task is another one. -/
theorem putPusher_stored (hi : s.pusher i ≠ .stored) (h : ∃ j, s.pusher j = .stored) :
    ∃ j, (s.putPusher i p).pusher j = .stored := by
  obtain ⟨j, hj⟩ := h
  have e : j ≠ i := by
    rintro rfl
    exact hi hj
  exact ⟨j, (Function.update_of_ne e ..).trans hj⟩

end Pusher

/-! ### The invariant -/

/-- A worker that is about to block has found no task, and a task that nobody is about to be
notified of finds a worker awake. -/
structure Inv (s : TaskQueue τ κ ι) : Prop where
  held : s.Held
  blocking : ∀ w, s.worker w = .blocking → s.tasks = []
  awake : s.tasks ≠ [] → (∃ w, s.worker w ≠ .waiting) ∨ ∃ i, s.pusher i = .stored
  flag : s.shutdown ≠ .before → s.isShuttingDown = true

theorem start_inv : (start : TaskQueue τ κ ι).Inv where
  held := by
    rintro (w | i) hl
    · rcases hl with hl | hl | hl <;> cases hl
    · exact absurd rfl hl
  blocking := by
    intro w hw
    cases hw
  awake h := absurd rfl h
  flag h := absurd rfl h

section Step

variable [DecidableEq κ] [DecidableEq ι] [Fintype κ] {e : Event τ κ ι}

/-- **One step.** -/
theorem step_inv [Nonempty κ] (h : s.Inv) (hs : s.step e = some s') : s'.Inv := by
  cases e with
  | lockPush i task =>
    simp only [step] at hs
    split at hs
    · rename_i hfree hi
      cases hs
      refine ⟨h.held.enters hfree rfl fun l hne hl => putPusher_inside_other l hne hl, h.blocking,
        fun ht => ?_, h.flag⟩
      exact (h.awake ht).imp_right (putPusher_stored (by rw [hi]; simp))
    · cases hs
  | store i =>
    simp only [step] at hs
    split at hs
    · rename_i task hi
      cases hs
      have hin : s.Inside (.pusher i) := inside_pusher hi (by simp)
      refine ⟨h.held.stays rfl (putPusher_inside fun _ => hin), fun w hw => ?_,
        fun _ => .inr ⟨i, putPusher_same⟩, h.flag⟩
      -- the mutex keeps workers from blocking meanwhile
      cases h.held.unique hin (show s.Inside (.worker w) from .inr (.inl hw))
    · cases hs
  | notifyOne i w =>
    simp only [step] at hs
    split at hs
    · rename_i w hi
      split_ifs at hs with hw
      cases hs
      have hin : s.Inside (.pusher i) := inside_pusher hi (by simp)
      refine ⟨h.held.stays rfl fun l hl => ?_, fun v hv => ?_, fun _ => .inl ⟨w, ?_⟩, h.flag⟩
      · refine putPusher_inside (fun _ => hin) l (putWorker_inside (fun e => ?_) l hl)
        rcases e with e | e | e <;> cases e
      · by_cases e : v = w
        · subst e
          rw [putWorker_same] at hv
          cases hv
        · rw [putWorker_other e] at hv
          exact h.blocking v hv
      · rw [putWorker_same]
        exact fun e => by cases e
    · rename_i hi
      split_ifs at hs with hnone
      cases hs
      have hin : s.Inside (.pusher i) := inside_pusher hi (by simp)
      obtain ⟨w⟩ := ‹Nonempty κ›
      exact ⟨h.held.stays rfl (putPusher_inside fun _ => hin), h.blocking,
        fun _ => .inl ⟨w, hnone w⟩, h.flag⟩
    · cases hs
  | unlockPush i =>
    simp only [step] at hs
    split at hs
    · rename_i hi
      cases hs
      have hin : s.Inside (.pusher i) := inside_pusher hi (by simp)
      refine ⟨h.held.exits hin ?_ fun l hne hl => putPusher_inside_other l hne hl, h.blocking,
        fun ht => ?_, h.flag⟩
      · intro hout
        exact hout putPusher_same
      · exact (h.awake ht).imp_right (putPusher_stored (by rw [hi]; simp))
    · cases hs
  | lockPop w =>
    rw [step] at hs
    split_ifs at hs with hw
    cases hs
    refine ⟨h.held.enters hw.1 rfl fun l hne hl => putWorker_inside_other l hne hl, fun v hv => ?_,
      fun _ => .inl ⟨w, ?_⟩, h.flag⟩
    · exact h.blocking v (putWorker_blocking (by simp) hv)
    · exact fun e => by cases putWorker_same.symm.trans e
  | check w =>
    rw [step] at hs
    split_ifs at hs with hw hready
    all_goals
      cases hs
      have hin : s.Inside (.worker w) := inside_worker hw (.inl rfl)
      refine ⟨h.held.stays rfl (putWorker_inside fun _ => hin), fun v hv => ?_,
        fun _ => .inl ⟨w, fun e => by cases putWorker_same.symm.trans e⟩, h.flag⟩
    · exact h.blocking v (putWorker_blocking (by simp) hv)
    · -- the predicate was false
      show s.tasks = []
      have hempty := (Bool.or_eq_false_iff.mp (Bool.eq_false_iff.mpr hready)).1
      simpa using hempty
  | block w =>
    rw [step] at hs
    split_ifs at hs with hw
    cases hs
    have hin : s.Inside (.worker w) := inside_worker hw (.inr (.inl rfl))
    -- nothing was pushed since the predicate was checked
    have htasks := h.blocking w hw
    refine ⟨h.held.exits hin ?_ fun l hne hl => putWorker_inside_other l hne hl, fun _ _ => htasks,
      fun ht => absurd htasks ht, h.flag⟩
    rintro (e | e | e) <;> cases putWorker_same.symm.trans e
  | spurious w =>
    rw [step] at hs
    split_ifs at hs with hw
    cases hs
    refine ⟨h.held.stays rfl (putWorker_inside ?_), fun v hv => ?_, fun _ => .inl ⟨w, ?_⟩, h.flag⟩
    · rintro (e | e | e) <;> cases e
    · exact h.blocking v (putWorker_blocking (by simp) hv)
    · exact fun e => by cases putWorker_same.symm.trans e
  | leave w =>
    rw [step] at hs
    split_ifs at hs with hw hflag
    · cases hs
      have hin : s.Inside (.worker w) := inside_worker hw (.inr (.inr rfl))
      refine ⟨h.held.exits hin ?_ fun l hne hl => putWorker_inside_other l hne hl, fun v hv => ?_,
        fun _ => .inl ⟨w, ?_⟩, h.flag⟩
      · rintro (e | e | e) <;> cases putWorker_same.symm.trans e
      · exact h.blocking v (putWorker_blocking (by simp) hv)
      · exact fun e => by cases putWorker_same.symm.trans e
    · split at hs
      · cases hs
      · rename_i t tasks ht
        cases hs
        have hin : s.Inside (.worker w) := inside_worker hw (.inr (.inr rfl))
        refine ⟨h.held.exits hin ?_ fun l hne hl => putWorker_inside_other l hne hl, fun v hv => ?_,
          fun _ => .inl ⟨w, ?_⟩, h.flag⟩
        · rintro (e | e | e) <;> cases putWorker_same.symm.trans e
        · have := h.blocking v (putWorker_blocking (by simp) hv)
          rw [ht] at this
          cases this
        · exact fun e => by cases putWorker_same.symm.trans e
  | storeFlag =>
    rw [step] at hs
    split_ifs at hs
    cases hs
    exact ⟨h.held, h.blocking, h.awake, fun _ => rfl⟩
  | notifyAll =>
    rw [step] at hs
    split_ifs at hs with hstored
    cases hs
    obtain ⟨w⟩ := ‹Nonempty κ›
    refine ⟨h.held.stays rfl fun l hl => wakeAll_inside l hl, fun v hv => ?_,
      fun _ => .inl ⟨w, wakeAll_awake w⟩, fun _ => h.flag ?_⟩
    · exact h.blocking v (wakeAll_blocking hv)
    · rw [hstored]
      simp

/-! ### After `Shutdown` -/

/-- Once `Shutdown` has returned, no worker is blocked or about to be. -/
def Told (s : TaskQueue τ κ ι) : Prop :=
  s.shutdown = .returned → ∀ w, s.worker w ≠ .waiting ∧ s.worker w ≠ .blocking

omit [DecidableEq ι] [Fintype κ] in
theorem Told.put (ht : s.Told) {w : κ} {p : PopPhase} (hp : p ≠ .waiting) (hp' : p ≠ .blocking) :
    (s.putWorker w p).Told := by
  intro hr v
  by_cases e : v = w
  · subst e
    rw [putWorker_same]
    exact ⟨hp, hp'⟩
  · rw [putWorker_other e]
    exact ht hr v

/-- **One step** in which nobody is missed. -/
theorem step_told (h : s.Inv) (ht : s.Told) (hok : s.Noticed e) (hs : s.step e = some s') :
    s'.Told := by
  cases e with
  | lockPush i task | store i | unlockPush i =>
    simp only [step] at hs
    split at hs
    · cases hs
      exact ht
    · cases hs
  | notifyOne i w =>
    simp only [step] at hs
    split at hs
    · split_ifs at hs
      cases hs
      exact Told.put (s := s.putPusher i .notified) ht (by simp) (by simp)
    · split_ifs at hs
      cases hs
      exact ht
    · cases hs
  | lockPop w | spurious w =>
    rw [step] at hs
    split_ifs at hs
    cases hs
    exact ht.put (by simp) (by simp)
  | check w =>
    rw [step] at hs
    split_ifs at hs with hw hready
    · cases hs
      exact ht.put (by simp) (by simp)
    · cases hs
      intro hr
      -- the flag makes the predicate true
      have hflag := h.flag (by rw [show s.shutdown = .returned from hr]; simp)
      rw [ready, hflag, Bool.or_true] at hready
      exact absurd rfl hready
  | block w =>
    rw [step] at hs
    split_ifs at hs with hw
    cases hs
    intro hr
    exact absurd hw (ht hr w).2
  | leave w =>
    rw [step] at hs
    split_ifs at hs
    · cases hs
      exact ht.put (by simp) (by simp)
    · split at hs
      · cases hs
      · cases hs
        exact ht.put (by simp) (by simp)
  | storeFlag =>
    rw [step] at hs
    split_ifs at hs
    cases hs
    intro hr
    cases hr
  | notifyAll =>
    rw [step] at hs
    split_ifs at hs
    cases hs
    intro _ w
    exact ⟨wakeAll_awake w, fun e => hok w (wakeAll_blocking e)⟩

/-- A worker that `notify_all` misses blocks for good. -/
theorem missed_blocks {w : κ} (hw : s.worker w = .blocking)
    (hs : s.step .notifyAll = some s') : ∃ s'', s'.step (.block w) = some s'' ∧ s''.MissedShutdown := by
  rw [step] at hs
  split_ifs at hs
  cases hs
  have hstill : s.wakeAll.worker w = .blocking := by
    show (if s.worker w = .waiting then PopPhase.woken else s.worker w) = .blocking
    rw [hw]
    rfl
  exact ⟨_, if_pos hstill, rfl, w, putWorker_same⟩

/-- A task is never left to workers that are all blocked. -/
theorem no_missed_push [Nonempty κ] {ok : TaskQueue τ κ ι → Event τ κ ι → Prop}
    {es : List (Event τ κ ι)} (r : Runs step ok start es s) : ¬ s.MissedPush := by
  have hinv : s.Inv := r.invariant start_inv fun a e b ha _ hs => step_inv ha hs
  rintro ⟨htasks, hall, hnone⟩
  rcases hinv.awake htasks with ⟨w, hw⟩ | ⟨i, hi⟩
  · exact hw (hall w)
  · exact hnone i hi

/-- **No lost wake-up.**  In every run in which no worker is between its check and its blocking
while `notify_all` is called, `Shutdown` misses no worker and `Push` leaves no task to workers that
are all blocked; and where one is, it can go on to block with `Shutdown` returned. -/
theorem no_lost_wakeup [Nonempty κ] {es : List (Event τ κ ι)} (r : Runs step Noticed start es s) :
    ¬ s.MissedShutdown ∧ ¬ s.MissedPush ∧
      ∀ w s', s.worker w = .blocking → s.step .notifyAll = some s' →
        ∃ s'', s'.step (.block w) = some s'' ∧ s''.MissedShutdown := by
  refine ⟨?_, no_missed_push r, fun w s' hw hs => missed_blocks hw hs⟩
  have hinv : s.Inv ∧ s.Told := by
    refine r.invariant (I := fun s => s.Inv ∧ s.Told) ⟨start_inv, ?_⟩ fun a e b ha hok hs => ?_
    · intro h
      cases h
    · exact ⟨step_inv ha.1 hs, step_told ha.1 ha.2 hok hs⟩
  rintro ⟨hreturned, w, hw⟩
  exact (hinv.2 hreturned w).1 hw

end Step

/-- A worker that waits is woken by `Shutdown`. -/
theorem no_lost_wakeup_waiting : ∃ s : TaskQueue Unit (Fin 1) (Fin 1),
    Runs step Noticed start [.lockPop 0, .check 0, .block 0, .storeFlag, .notifyAll] s ∧
      s.shutdown = .returned ∧ ¬ s.MissedShutdown ∧ ¬ s.MissedPush := by
  have hexec : (execIf (fun s e => decide (s.Noticed e)) step
      (start : TaskQueue Unit (Fin 1) (Fin 1))
      [.lockPop 0, .check 0, .block 0, .storeFlag, .notifyAll]).map TaskQueue.shutdown =
        some .returned := by
    decide
  obtain ⟨s, hs, hreturned⟩ := Option.map_eq_some_iff.mp hexec
  have run : Runs step Noticed start _ s :=
    Runs.of_execIf (I := fun _ => True) (fun _ _ _ h => of_decide_eq_true h)
      (fun _ _ _ _ _ _ => trivial) trivial hs
  have h := no_lost_wakeup run
  exact ⟨s, run, hreturned, h.1, h.2.1⟩

/-- **A missed worker.**  It has found no task and no flag when `Shutdown` stores the one and
notifies those that wait, and blocks after that. -/
theorem shutdown_misses_worker : ∃ s : TaskQueue Unit (Fin 1) (Fin 1),
    Runs step Always start [.lockPop 0, .check 0, .storeFlag, .notifyAll, .block 0] s ∧
      s.MissedShutdown := by
  have run₁ : Runs step Always (start : TaskQueue Unit (Fin 1) (Fin 1)) _ _ :=
    .one (e := .lockPop 0) trivial rfl
  have run₂ := run₁.more (show Always _ (Event.check 0) from trivial) rfl
  have run₃ := run₂.more (show Always _ Event.storeFlag from trivial) rfl
  have run₄ := run₃.more (show Always _ Event.notifyAll from trivial) rfl
  have run₅ := run₄.more (show Always _ (Event.block 0) from trivial) rfl
  exact ⟨_, run₅, rfl, 0, rfl⟩

end TaskQueue

end IocpServer
