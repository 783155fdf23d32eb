import IocpServer.Server.Good
import Mathlib.Tactic.DeriveFintype

/-!
# Server — Teardown

The destruction of a `ServerService` while its threads are still running: the members in the reverse
of their declarations, `~IocpCore` and `~PacketHandler` with their joins, and the members of
`PacketHandler` and `SessionManager` in the same way.

* `Quiet`, `Engine.step_quiet`: with no session in use and no thread inside `PostAccept` it stays so.
* `Engine.step_accounts`: with no thread on its way to the accounts it stays so.
* `teardown_safe`: when nothing that is being destroyed is used any more.
* `accept_uses_listener`: a client that is accepted meanwhile.
-/

namespace IocpServer

/-! ### A quiet engine -/

/-- Inside `PostAccept`, with no reference to a session yet or no longer. -/
def Instr.postsAccept : Instr → Bool
  | .load | .cas _ | .rollback | .acquire | .give _ => true
  | _ => false

/-- The task calls `RegisterAccount` or `Authenticate`. -/
def TaskKind.accounts : TaskKind → Bool
  | .reply | .login => true
  | .logout | .broadcast => false

/-- On the way to the end of a call of `AccountManager`. -/
def Instr.accounts : Instr → Bool
  | .execute t => t.kind.accounts
  | .logIn _ | .account _ | .accountEnd _ => true
  | _ => false

attribute [simp] Instr.accounts.eq_1 Instr.accounts.eq_2 Instr.accounts.eq_3 Instr.accounts.eq_4
  Instr.accounts.eq_5

theorem Handler.postsAccept {w : Nat} {zero : Bool} {t : IoType} {i : Instr}
    (hi : Handler w zero t i) : i.postsAccept = false := by
  cases hi <;> rfl

namespace Engine

variable {ι : Type} {N kMaxAccept : Nat} {s s' : Engine ι N} {e : Event ι}

/-- No session is in use, and no thread is inside `PostAccept`. -/
structure Quiet (s : Engine ι N) : Prop where
  idle : ∀ w < N, (s.set.cells w).state = SessionState.kIdle.toNat
  posts : ∀ a, ∀ i ∈ s.code a, i.postsAccept = false

variable [Fintype ι]

instance (s : Engine ι N) : Decidable s.Quiet :=
  decidable_of_iff ((∀ w < N, (s.set.cells w).state = SessionState.kIdle.toNat) ∧
    ∀ a, ∀ i ∈ s.code a, i.postsAccept = false) ⟨fun h => ⟨h.1, h.2⟩, fun h => ⟨h.1, h.2⟩⟩

/-- Nothing refers to a session, and nothing that is to be executed will. -/
theorem Good.unused (hg : s.Good) (hq : s.Quiet) {w : Nat} (hw : w < N) :
    s.sessionPtrs w = none ∧ (∀ x, ((s.sessions w).ov x).sessionPtr = none) ∧
      ∀ i ∈ s.codeAt w, i.holds = 0 ∧ i.keeps = false ∧ i.needs = false := by
  have hb := hg.base w hw
  obtain ⟨hheld, hkept⟩ := hb.tally.free_iff.mp (hq.idle w hw)
  have hsum : refs (s.view w).entry + ptrs (s.view w).conn.ov +
      weight Instr.holds (s.codeAt w) = 0 := hheld
  refine ⟨refs_eq_zero.mp (by show refs (s.view w).entry = 0; omega), fun x => ?_, fun i hi => ?_⟩
  · have hle := (s.view w).conn.ptr_le_ptrs x
    exact refs_eq_zero.mp (by show refs ((s.view w).conn.ov x).sessionPtr = 0; omega)
  · have hholds := le_weight (f := Instr.holds) hi
    refine ⟨by omega, ?_, ?_⟩
    · by_contra hk
      have := num_pos (q := Instr.keeps) hi (by simpa using hk)
      omega
    · by_contra hn
      have := hg.cover w i hi (by simpa using hn)
      omega

/-- No instruction of a quiet engine is about the listener. -/
theorem Good.unused_code (hg : s.Good) (hq : s.Quiet) {a : ι} {i : Instr} (hi : i ∈ s.code a) {w : Nat}
    (hs : i.slot = some w) : i.holds = 0 ∧ i.keeps = false ∧ i.needs = false :=
  (hg.unused hq (hg.inRange a i hi w hs)).2.2 i (mem_codeAt.mpr ⟨⟨a, hi⟩, hs⟩)

variable [DecidableEq ι]

/-- The slot that takes a step stays idle. -/
theorem Quiet.seat {w : Nat} {v v' : Seat} {act : Act} {is is' : List Instr}
    (hs : SeatStep w v act is is' v') (h0 : v.cell.state = SessionState.kIdle.toNat)
    (hact : act ≠ .pop) (his : ∀ i ∈ is, i.keeps = false ∧ i.needs = false) :
    v'.cell.state = SessionState.kIdle.toNat := by
  cases hs with
  | pop => exact absurd rfl hact
  | connectSession | setState => simp [Instr.needs] at his
  | push => simp at his
  | _ => exact h0

omit [Fintype ι] [DecidableEq ι] in
/-- An idle slot starts no `PostAccept`. -/
theorem Quiet.posted {w : Nat} {v v' : Seat} {act : Act} {is is' : List Instr}
    (hs : SeatStep w v act is is' v') (his : ∀ i ∈ is, i.holds = 0) :
    ∀ i ∈ is', i.postsAccept = false := by
  have hlast : ∀ p, ∀ i ∈ v.last p, i.postsAccept = false := by
    intro p i hi
    cases p with
    | none => simp [Seat.last] at hi
    | some g =>
      simp only [Seat.last, Option.elim] at hi
      split at hi
      · obtain rfl := List.mem_singleton.mp hi
        rfl
      · cases hi
  have hafter : ∀ p b, ∀ i ∈ Purpose.after w p b, i.postsAccept = false := by
    intro p b
    cases p with
    | welcome k | firstRecv k => cases k <;> cases b <;> simp [Purpose.after, Instr.postsAccept]
    | _ => cases b <;> simp [Purpose.after, Instr.postsAccept]
  cases hs with
  | enter => simp at his
  | overflow | posted | sendFull | sendBusy => exact hafter _ _
  | connectLate => exact hafter (.firstRecv _) _
  | reset | drop => exact hlast _
  | assign | failed =>
    rw [List.forall_mem_append]
    exact ⟨hlast _, by simp [Instr.postsAccept]⟩
  | notPosted =>
    rw [List.forall_mem_append]
    exact ⟨hlast _, hafter _ _⟩
  | dispatched hi =>
    rw [List.forall_mem_append]
    exact ⟨hlast _, by simpa using hi.postsAccept⟩
  | complete | completeError =>
    rw [List.forall_mem_append, Seat.accepts]
    refine ⟨?_, by simp [Instr.postsAccept]⟩
    split <;> simp [Instr.postsAccept]
  | execute =>
    rename_i t o
    cases t.kind <;> simp [TaskKind.body, Instr.postsAccept]
  | lookup =>
    rename_i g call _
    cases call <;> simp [Call.body, Instr.postsAccept]
  | _ => simp [Instr.postsAccept]

/-- **A quiet engine stays quiet**, unless somebody calls `PostAccept`. -/
theorem step_quiet (hN : N < 2 ^ 32) (hg : s.Good) (hq : s.Quiet) (he : ∀ a, e ≠ .postAccept a)
    (h : s.step kMaxAccept e = some s') : s'.Quiet := by
  obtain ⟨hm, -⟩ := step_moves hN hg h
  cases hm with
  | slot hw hs ho ht hc =>
    rename_i w act is is' fs fs'
    have his : ∀ i ∈ is, i.holds = 0 ∧ i.keeps = false ∧ i.needs = false := by
      intro i hi
      cases ht with
      | run hcode hslot =>
        obtain rfl := List.mem_singleton.mp hi
        exact hg.unused_code hq (hcode ▸ List.mem_cons_self) hslot
      | _ => cases hi
    have hact : act ≠ .pop := by
      rintro rfl
      cases ht with
      | pop hcode => cases hq.posts _ _ (hcode ▸ List.mem_cons_self)
    have hspawned : ∀ i ∈ fs', i.postsAccept = false := by
      cases ht with
      | run hcode hslot =>
        rename_i a o i rest _ _
        have hposts := hq.posts a i (hcode ▸ List.mem_cons_self)
        have hi := his i List.mem_cons_self
        cases i with
        | give => cases hposts
        | countDown => simp [Instr.needs] at hi
        | push => simp at hi
        | post k p =>
          cases p with
          | accept => simp at hi
          | _ => simp [Instr.spawns]
        | execute t =>
          simp only [Instr.spawns]
          split <;> simp [Instr.postsAccept]
        | _ => simp [Instr.spawns]
      | _ => simp
    refine ⟨fun x hx => ?_, ?_⟩
    · by_cases e : x = w
      · subst e
        exact Quiet.seat hs (hq.idle x hx) hact fun i hi => (his i hi).2
      · have hview := congrArg (fun v : Seat => v.cell.state) (ho x e)
        exact hview.trans (hq.idle x hx)
    · refine hc.forall (P := fun l => ∀ i ∈ l, i.postsAccept = false) hq.posts fun rest hl => ?_
      rw [List.forall_mem_append] at hl ⊢
      refine ⟨?_, hl.2⟩
      rw [List.forall_mem_append]
      exact ⟨Quiet.posted hs fun i hi => (his i hi).1, hspawned⟩
  | idle ho ht hi hc =>
    rename_i fs fs'
    have hnot : ∀ {a : ι} {i : Instr} {rest : List Instr}, s.code a = i :: rest →
        i.postsAccept = false := fun hcode => hq.posts _ _ (hcode ▸ List.mem_cons_self)
    have hspawned : ∀ i ∈ fs', i.postsAccept = false := by
      cases hi with
      | postAccept => exact absurd rfl (he _)
      | call | lookup => simp [Instr.postsAccept]
      | full hcode | load hcode | cas hcode | retry hcode | rollback hcode | empty hcode =>
        cases hnot hcode
    refine ⟨fun x hx => ?_, ?_⟩
    · have hview := congrArg (fun v : Seat => v.cell.state) (ho x)
      exact hview.trans (hq.idle x hx)
    · refine hc.forall (P := fun l => ∀ i ∈ l, i.postsAccept = false) hq.posts fun rest hl => ?_
      rw [List.forall_mem_append] at hl ⊢
      exact ⟨hspawned, hl.2⟩

omit [Fintype ι] [DecidableEq ι] in
/-- Only the start of a task leads to the accounts. -/
theorem accounts_step {w : Nat} {v v' : Seat} {act : Act} {is is' : List Instr}
    (hs : SeatStep w v act is is' v') (ht : ∀ t, act = .task t → t.kind.accounts = false)
    (h : is.countP Instr.accounts = 0) : is'.countP Instr.accounts = 0 := by
  cases hs with
  | task =>
    rename_i t
    simp [ht t rfl]
  | execute =>
    rename_i t o
    cases hk : t.kind <;> simp [hk, TaskKind.accounts, TaskKind.body] at h ⊢
  | dispatched hi => simp [countP_last, hi.count Instr.accounts]
  | logIn => simp at h
  | _ => simp [countP_last]

omit [Fintype ι] [DecidableEq ι] in
theorem accounts_spawns (v : Seat) (o : Outcome) (i : Instr) : ∀ j ∈ i.spawns v o, j.accounts = false := by
  intro j hj
  have hn := (slot_spawns v o i j hj).1
  cases j with
  | execute | account | accountEnd | logIn => cases hn
  | _ => rfl

/-- **Nobody starts to use the accounts** unless a registration or a login is taken from the queue. -/
theorem step_accounts (hN : N < 2 ^ 32) (hg : s.Good) (hq : ∀ a, ∀ i ∈ s.code a, i.accounts = false)
    (he : ∀ a, e = .task a → ∀ t ∈ s.tasks.head?, t.kind.accounts = false)
    (h : s.step kMaxAccept e = some s') : ∀ a, ∀ i ∈ s'.code a, i.accounts = false := by
  obtain ⟨hm, -⟩ := step_moves hN hg h
  cases hm with
  | slot hw hs ho ht hc =>
    rename_i w act is is' fs fs'
    have htask : ∀ t, act = .task t → t.kind.accounts = false := by
      rintro t rfl
      cases ht with
      | task _ htasks => exact he _ rfl t (by rw [htasks]; rfl)
    have his : is.countP Instr.accounts = 0 := by
      refine List.countP_eq_zero.mpr fun i hi => ?_
      cases ht with
      | run hcode =>
        obtain rfl := List.mem_singleton.mp hi
        simp [hq _ i (hcode ▸ List.mem_cons_self)]
      | _ => cases hi
    have hnew : ∀ i ∈ is', i.accounts = false := by
      simpa using List.countP_eq_zero.mp (accounts_step hs htask his)
    have hspawned : ∀ i ∈ fs', i.accounts = false := by
      cases ht with
      | run => exact accounts_spawns _ _ _
      | _ => simp
    refine hc.forall (P := fun l => ∀ i ∈ l, i.accounts = false) hq fun rest hl => ?_
    rw [List.forall_mem_append] at hl ⊢
    refine ⟨?_, hl.2⟩
    rw [List.forall_mem_append]
    exact ⟨hnew, hspawned⟩
  | idle ho ht hi hc =>
    rename_i fs fs'
    have hspawned : ∀ i ∈ fs', i.accounts = false := by
      cases hi <;> simp [Instr.accounts]
    refine hc.forall (P := fun l => ∀ i ∈ l, i.accounts = false) hq fun rest hl => ?_
    rw [List.forall_mem_append] at hl ⊢
    exact ⟨hspawned, hl.2⟩

/-- A thread with nothing to execute gets something when it is started only. -/
theorem step_code_nil (hN : N < 2 ^ 32) (hg : s.Good) (h : s.step kMaxAccept e = some s') {a : ι}
    (ha : s.code a = []) (hpost : e ≠ .postAccept a) (hcall : ∀ g c, e ≠ .call a g c)
    (htask : e ≠ .task a) (hdeq : ∀ w x ok zero, e ≠ .dequeue a w x ok zero) : s'.code a = [] := by
  cases e with
  | postAccept b =>
    have hne : a ≠ b := fun e => hpost (e ▸ rfl)
    rw [step] at h
    split_ifs at h
    cases h
    exact (Function.update_of_ne hne ..).trans ha
  | call b g c =>
    have hne : a ≠ b := fun e => hcall g c (e ▸ rfl)
    rw [step] at h
    split_ifs at h
    cases h
    exact (Function.update_of_ne hne ..).trans ha
  | task b =>
    have hne : a ≠ b := fun e => htask (e ▸ rfl)
    simp only [step] at h
    split at h
    · split_ifs at h
      cases h
      exact (Function.update_of_ne hne ..).trans ha
    · cases h
  | accepted w | disconnected w =>
    rw [step] at h
    split_ifs at h
    cases h
    exact ha
  | dequeue b w x ok zero =>
    have hne : a ≠ b := fun e => hdeq w x ok zero (e ▸ rfl)
    rw [step] at h
    split_ifs at h
    cases h
    exact (Function.update_of_ne hne ..).trans ha
  | run b o =>
    -- the thread that goes on has something to execute
    have key : ∀ {fs fs' : List Instr}, fs ≠ [] → Replaces s s' fs fs' → s'.code a = [] := by
      intro fs fs' hfs hc
      cases hc with
      | thread c rest hcode hcode' =>
        have hne : a ≠ c := by
          rintro rfl
          rw [ha] at hcode
          exact hfs (List.append_eq_nil_iff.mp hcode.symm).1
        rw [hcode', Function.update_of_ne hne, ha]
      | nothing hnil => exact absurd hnil hfs
    obtain ⟨hm, -⟩ := step_moves hN hg h
    cases hm with
    | slot hw hs ho ht hc => cases ht <;> exact key (by simp) hc
    | idle ho ht hi hc => cases hi <;> exact key (by simp) hc

omit [Fintype ι] in
theorem putCode_nil {a : ι} (h : s.code a = []) : s.putCode a [] = s := by
  rw [putCode, ← h, Function.update_eq_self]

omit [Fintype ι] [DecidableEq ι] in
/-- The destructor of an empty pointer. -/
theorem resetOv_none {w : Nat} {x : Ov} (h : ((s.sessions w).ov x).sessionPtr = none) :
    s.resetOv w x = some (s, []) := by
  have hio : { (s.sessions w).ov x with sessionPtr := none } = (s.sessions w).ov x := by
    rw [← h]
  simp only [resetOv, h, releasePtr, Option.bind_eq_bind, Option.bind_some, Option.pure_def, putIo,
    putConn, hio, upd, Function.update_eq_self]

omit [Fintype ι] [DecidableEq ι] in
theorem clearPtr_none {w : Nat} (h : s.sessionPtrs w = none) :
    { s with sessionPtrs := upd s.sessionPtrs w none } = s := by
  rw [← h, upd, Function.update_eq_self]

end Engine

/-! ### The destruction -/

/-- A member that others use. -/
inductive Member where
  | accountManager
  | dbManager
  | listener
  | packetPool
  | sessionPool
  deriving DecidableEq

/-- The members that an instruction acts on.  The calls of `AccountManager` act on it and on
`DBManager` from their first step to their last. -/
def Instr.uses : Instr → List Member
  | .load | .cas _ | .rollback => [.listener]
  | .acquire | .register _ (.accept _) | .countDown _ | .handleAccept _ => [.listener, .sessionPool]
  | .sendPacket .. | .onRecv _ | .execute _ => [.packetPool, .sessionPool]
  | .taskEnd _ => [.packetPool]
  | .account _ | .accountEnd _ => [.accountManager, .dbManager]
  | _ => [.sessionPool]

/-- Who uses the listener is inside `PostAccept`, or holds the session of an accept. -/
theorem Instr.uses_listener {i : Instr} (h : .listener ∈ i.uses) :
    i.postsAccept = true ∨ ∃ w, i.slot = some w ∧ (i.holds ≠ 0 ∨ i.needs = true) := by
  cases i with
  | load | cas | rollback | acquire => exact .inl rfl
  | countDown g => exact .inr ⟨slotIndex g, rfl, .inr rfl⟩
  | handleAccept w => exact .inr ⟨w, rfl, .inr rfl⟩
  | register w p =>
    cases p with
    | accept g => exact .inr ⟨w, rfl, .inl (by simp)⟩
    | _ => simp [Instr.uses] at h
  | _ => simp [Instr.uses] at h

/-- Who uses the accounts registers or logs in. -/
theorem Instr.uses_accounts {i : Instr} (h : .accountManager ∈ i.uses ∨ .dbManager ∈ i.uses) :
    i.accounts = true := by
  cases i with
  | account | accountEnd => rfl
  | register w p => cases p <;> simp [Instr.uses] at h
  | _ => simp [Instr.uses] at h

namespace Teardown

/-- The thread that destroys the server, the workers of `IocpCore` and those of `PacketHandler`. -/
inductive Thread (n : Nat) where
  | main
  | iocp (i : Fin n)
  | packet (j : Fin Config.kWorkerThreadCount)
  deriving DecidableEq, Fintype

/-- How far the destruction has come: the destructor that has begun last, and what a loop in it has
still to do. -/
inductive Phase where
  | alive
  | accountManager
  | dbManager
  | listener
  | iocpCore
  | packetHandler
  | packetPool
  | taskQueue
  | sessionPtrs (rest : List Nat)
  | sessionPool (rest : List (Nat × Ov))
  | done

def Phase.rank : Phase → Nat
  | alive => 0
  | accountManager => 1
  | dbManager => 2
  | listener => 3
  | iocpCore => 4
  | packetHandler => 5
  | packetPool => 6
  | taskQueue => 7
  | sessionPtrs _ => 8
  | sessionPool _ => 9
  | done => 10

/-- The slots that a loop of the destruction has still to visit. -/
def Phase.slots : Phase → List Nat
  | .sessionPtrs rest => rest
  | .sessionPool rest => rest.map Prod.fst
  | _ => []

/-- The `OverlappedEx` of the sessions, in the order of their destruction. -/
def ovs (N : Nat) : List (Nat × Ov) :=
  (List.range N).flatMap fun k => [(k, .disconnect), (k, .send), (k, .recv)]

/-- When the destruction of a member begins. -/
def begins : Member → Nat
  | .accountManager => 1
  | .dbManager => 2
  | .listener => 3
  | .packetPool => 6
  | .sessionPool => 9

end Teardown

open Teardown

/-- The server, and which of its workers have ended. -/
structure Teardown (n N : Nat) where
  engine : Engine (Thread n) N
  phase : Phase
  ended : Thread n → Bool

namespace Teardown

variable {n N : Nat}

def start (n N : Nat) : Teardown n N := ⟨.start (Thread n) N, .alive, fun _ => false⟩

inductive Event (n : Nat) where
  | engine (e : Engine.Event (Thread n))
  /-- A worker leaves its loop. -/
  | exit (a : Thread n)
  /-- The main thread goes on with the destruction. -/
  | destroy

/-- Who does what: `Start` is called by the main thread, completions are taken by the workers of
`IocpCore`, and tasks by those of `PacketHandler` until `Shutdown`. -/
def allows (s : Teardown n N) : Engine.Event (Thread n) → Bool
  | .postAccept a => a = .main && s.phase.rank = 0
  | .call .. => false
  | .task (.packet j) => !s.ended (.packet j) && s.phase.rank < 5
  | .dequeue (.iocp i) .. => !s.ended (.iocp i)
  | .task _ | .dequeue .. => false
  | .accepted _ | .disconnected _ | .run .. => true

/-- The worker has been told to end. -/
def told (s : Teardown n N) : Thread n → Bool
  | .main => false
  | .iocp _ => 4 ≤ s.phase.rank
  | .packet _ => 5 ≤ s.phase.rank

/-- The next of what the main thread does.  `sessionPtrs_` is destroyed from its end, `pool_` of the
session pool from its start, and the members of each session in the reverse of their
declarations. -/
def destroy (s : Teardown n N) : Option (Teardown n N) :=
  match s.phase with
  | .alive => some { s with phase := .accountManager }
  | .accountManager => some { s with phase := .dbManager }
  | .dbManager => some { s with phase := .listener }
  | .listener => some { s with phase := .iocpCore }
  | .iocpCore =>
      if ∀ i, s.ended (.iocp i) = true then some { s with phase := .packetHandler } else none
  | .packetHandler =>
      if ∀ j, s.ended (.packet j) = true then some { s with phase := .packetPool } else none
  | .packetPool => some { s with phase := .taskQueue }
  | .taskQueue =>
      match s.engine.tasks with
      | _ :: tasks => some { s with engine := { s.engine with tasks } }
      | [] => some { s with phase := .sessionPtrs (List.range N).reverse }
  | .sessionPtrs (k :: rest) => do
      let (engine, code) ← s.engine.releasePtr (s.engine.sessionPtrs k)
      let engine := { engine with sessionPtrs := upd engine.sessionPtrs k none }
      return { s with engine := engine.putCode .main code, phase := .sessionPtrs rest }
  | .sessionPtrs [] => some { s with phase := .sessionPool (ovs N) }
  | .sessionPool ((k, x) :: rest) => do
      let (engine, code) ← s.engine.resetOv k x
      return { s with engine := engine.putCode .main code, phase := .sessionPool rest }
  | .sessionPool [] => some { s with phase := .done }
  | .done => none

def step (kMaxAccept : Nat) (s : Teardown n N) : Event n → Option (Teardown n N)
  | .engine e =>
      if s.allows e then do
        let engine ← s.engine.step kMaxAccept e
        return { s with engine }
      else none
  | .exit a =>
      if s.engine.code a = [] ∧ s.told a then some { s with ended := Function.update s.ended a true }
      else none
  | .destroy => if s.engine.code .main = [] then s.destroy else none

/-- The members that a step acts on: an instruction, the release of a packet by the destructor of a
task, or that of a session by the destructor of a pointer. -/
def uses (s : Teardown n N) : Event n → List Member
  | .engine (.run a _) => (s.engine.code a).head?.elim [] Instr.uses
  | .engine _ | .exit _ => []
  | .destroy =>
      match s.phase with
      | .taskQueue => if s.engine.tasks = [] then [] else [.packetPool]
      | .sessionPtrs (k :: _) => if (s.engine.sessionPtrs k).isSome then [.sessionPool] else []
      | .sessionPool ((k, x) :: _) =>
          if ((s.engine.sessions k).ov x).sessionPtr.isSome then [.sessionPool] else []
      | _ => []

/-- The destruction of the member has begun. -/
def Begun (s : Teardown n N) (m : Member) : Prop := begins m ≤ s.phase.rank

instance (s : Teardown n N) (m : Member) : Decidable (s.Begun m) := inferInstanceAs (Decidable (_ ≤ _))

/-- Nothing is left to be done when it is too late: the destruction begins when no worker is inside a
registration or a login, and after that none is taken from the queue; `~Listener` begins when no
session is in use and no thread inside `PostAccept`; and the workers of `PacketHandler` leave no task
behind. -/
def Orderly (s : Teardown n N) : Event n → Prop
  | .engine (.task _) => s.engine.Fits ∧
      (0 < s.phase.rank → ∀ t ∈ s.engine.tasks.head?, t.kind.accounts = false)
  | .engine _ => s.engine.Fits
  | .exit _ => True
  | .destroy => (s.phase.rank = 0 → ∀ a, ∀ i ∈ s.engine.code a, i.accounts = false) ∧
      (s.phase.rank = 2 → s.engine.Quiet) ∧ (s.phase.rank = 5 → s.engine.tasks = [])

instance (s : Teardown n N) : ∀ e, Decidable (s.Orderly e)
  | .engine (.task _) => inferInstanceAs (Decidable (_ ∧ _))
  | .engine (.postAccept _) | .engine (.call ..) | .engine (.run ..) | .engine (.accepted _)
  | .engine (.disconnected _) | .engine (.dequeue ..) => inferInstanceAs (Decidable s.engine.Fits)
  | .exit _ => .isTrue trivial
  | .destroy => inferInstanceAs (Decidable (_ ∧ _))

/-! ### What stays -/

variable {kMaxAccept : Nat} {s s' : Teardown n N} {e : Event n} {es : List (Event n)}

/-- The invariant of an orderly destruction. -/
structure Inv (s : Teardown n N) : Prop where
  good : s.engine.Good
  ended : ∀ a, s.ended a = true → s.told a = true ∧ s.engine.code a = []
  main : 0 < s.phase.rank → s.engine.code .main = []
  accounts : 0 < s.phase.rank → ∀ a, ∀ i ∈ s.engine.code a, i.accounts = false
  iocp : 4 < s.phase.rank → ∀ i, s.ended (.iocp i) = true
  packet : 5 < s.phase.rank → ∀ j, s.ended (.packet j) = true
  quiet : 2 < s.phase.rank → s.engine.Quiet
  tasks : 5 < s.phase.rank → s.engine.tasks = []
  slots : ∀ k ∈ s.phase.slots, k < N

/-- When the packet pool is destroyed no thread is left. -/
theorem Inv.stopped (hi : s.Inv) (h : 5 < s.phase.rank) : ∀ a, s.engine.code a = []
  | .main => hi.main (by omega)
  | .iocp i => (hi.ended _ (hi.iocp (by omega) i)).2
  | .packet j => (hi.ended _ (hi.packet h j)).2

theorem start_inv (hN : N < 2 ^ 32) : (start n N).Inv where
  good := Engine.start_good hN
  ended _ h := by cases h
  main _ := rfl
  accounts h := by cases h
  iocp h := by cases h
  packet h := by cases h
  quiet h := by cases h
  tasks _ := rfl
  slots _ h := by cases h

/-- The main thread does not start anything once the destruction has begun. -/
theorem main_idle (hN : N < 2 ^ 32) (hg : s.engine.Good) {e : Engine.Event (Thread n)}
    (ha : s.allows e = true) {t : Engine (Thread n) N} (h : s.engine.step kMaxAccept e = some t)
    (hr : 0 < s.phase.rank) (h0 : s.engine.code .main = []) : t.code .main = [] := by
  refine Engine.step_code_nil hN hg h h0 ?_ ?_ ?_ ?_
  · rintro rfl
    simp only [allows, Bool.and_eq_true, decide_eq_true_eq] at ha
    exact hr.ne' ha.2
  · rintro g c rfl
    cases ha
  · rintro rfl
    cases ha
  · rintro w x ok zero rfl
    cases ha

/-- Nor does a worker that has ended. -/
theorem ended_idle (hN : N < 2 ^ 32) (hg : s.engine.Good) {e : Engine.Event (Thread n)}
    (ha : s.allows e = true) {t : Engine (Thread n) N} (h : s.engine.step kMaxAccept e = some t)
    {a : Thread n} (hm : a ≠ .main) (hended : s.ended a = true) (h0 : s.engine.code a = []) :
    t.code a = [] := by
  refine Engine.step_code_nil hN hg h h0 ?_ ?_ ?_ ?_
  · rintro rfl
    simp only [allows, Bool.and_eq_true, decide_eq_true_eq] at ha
    exact hm ha.1
  · rintro g c rfl
    cases ha
  · rintro rfl
    cases a with
    | packet j => simp [allows, hended] at ha
    | _ => cases ha
  · rintro w x ok zero rfl
    cases a with
    | iocp i => simp [allows, hended] at ha
    | _ => cases ha

/-- Without threads nothing happens to the queue. -/
theorem tasks_idle (hi : s.Inv) {e : Engine.Event (Thread n)}
    {t : Engine (Thread n) N} (h : s.engine.step kMaxAccept e = some t) (hr : 5 < s.phase.rank) :
    t.tasks = [] := by
  have h0 := hi.tasks hr
  cases e with
  | run a o =>
    simp only [Engine.step, hi.stopped hr a] at h
    cases h
  | task a =>
    simp only [Engine.step, h0] at h
    cases h
  | _ =>
    rw [Engine.step] at h
    split_ifs at h
    cases h
    exact h0

/-- A step of the workers. -/
theorem Inv.engine (hN : N < 2 ^ 32) (hi : s.Inv) {e : Engine.Event (Thread n)}
    (hok : s.Orderly (.engine e)) (ha : s.allows e = true) {t : Engine (Thread n) N}
    (h : s.engine.step kMaxAccept e = some t) : Inv { s with engine := t } where
  good := by
    have hf : s.engine.Fits := by
      cases e with
      | task => exact hok.1
      | _ => exact hok
    exact hi.good.step hN hf h
  ended a hended := by
    obtain ⟨htold, h0⟩ := hi.ended a hended
    refine ⟨htold, ended_idle hN hi.good ha h ?_ hended h0⟩
    rintro rfl
    cases htold
  main hr := main_idle hN hi.good ha h hr (hi.main hr)
  accounts hr := by
    refine Engine.step_accounts hN hi.good (hi.accounts hr) ?_ h
    rintro a rfl
    exact hok.2 hr
  iocp := hi.iocp
  packet := hi.packet
  quiet hr := by
    refine Engine.step_quiet hN hi.good (hi.quiet hr) ?_ h
    rintro a rfl
    simp only [allows, Bool.and_eq_true, decide_eq_true_eq] at ha
    change 2 < s.phase.rank at hr
    omega
  tasks hr := tasks_idle hi h hr
  slots := hi.slots

/-- The next phase, with nothing else changed. -/
theorem Inv.next (hi : s.Inv) {p : Phase} (hr : s.phase.rank ≤ p.rank)
    (hmain : s.engine.code .main = [])
    (haccounts : ∀ a, ∀ i ∈ s.engine.code a, i.accounts = false)
    (hiocp : 4 < p.rank → ∀ i, s.ended (.iocp i) = true)
    (hpacket : 5 < p.rank → ∀ j, s.ended (.packet j) = true) (hquiet : 2 < p.rank → s.engine.Quiet)
    (htasks : 5 < p.rank → s.engine.tasks = []) (hslots : ∀ k ∈ p.slots, k < N) :
    Inv { s with phase := p } where
  good := hi.good
  ended a hended := by
    obtain ⟨htold, h0⟩ := hi.ended a hended
    refine ⟨?_, h0⟩
    cases a with
    | main => exact htold
    | iocp i | packet j =>
      simp only [told, decide_eq_true_eq] at htold ⊢
      omega
  main _ := hmain
  accounts _ := haccounts
  iocp := hiocp
  packet := hpacket
  quiet := hquiet
  tasks := htasks
  slots := hslots

theorem mem_ovs {k : Nat} (h : k ∈ (ovs N).map Prod.fst) : k < N := by
  simp only [ovs, List.map_flatMap, List.mem_flatMap, List.mem_range] at h
  obtain ⟨j, hj, hk⟩ := h
  simp at hk
  exact hk ▸ hj

/-- When the workers have ended nothing but the phase changes. -/
theorem Inv.finish (hi : s.Inv) (h : 5 < s.phase.rank) {p : Phase} (hr : s.phase.rank ≤ p.rank)
    (hslots : ∀ k ∈ p.slots, k < N) : Inv { s with phase := p } :=
  hi.next hr (hi.main (by omega)) (hi.accounts (by omega)) (fun _ => hi.iocp (by omega)) (fun _ => hi.packet h)
    (fun _ => hi.quiet (by omega)) (fun _ => hi.tasks h) hslots

/-- The main thread goes on, and releases no session. -/
theorem Inv.destroy (hi : s.Inv) (hmain : s.engine.code .main = []) (hok : s.Orderly .destroy)
    (h : s.destroy = some s') : s'.Inv := by
  obtain ⟨hbegin, hquiet, htasks⟩ := hok
  have hacc : ∀ a, ∀ i ∈ s.engine.code a, i.accounts = false := by
    rcases Nat.eq_zero_or_pos s.phase.rank with h0 | h0
    · exact hbegin h0
    · exact hi.accounts h0
  simp only [Teardown.destroy] at h
  cases hp : s.phase with
  | alive | accountManager =>
    simp only [hp] at h
    cases h
    exact hi.next (by simp [hp, Phase.rank]) hmain hacc (by simp [Phase.rank]) (by simp [Phase.rank])
      (by simp [Phase.rank]) (by simp [Phase.rank]) (by simp [Phase.slots])
  | dbManager =>
    simp only [hp] at h
    cases h
    exact hi.next (by simp [hp, Phase.rank]) hmain hacc (by simp [Phase.rank]) (by simp [Phase.rank])
      (fun _ => hquiet (by simp [hp, Phase.rank])) (by simp [Phase.rank]) (by simp [Phase.slots])
  | listener =>
    have hq := hi.quiet (by simp [hp, Phase.rank])
    simp only [hp] at h
    cases h
    exact hi.next (by simp [hp, Phase.rank]) hmain hacc (by simp [Phase.rank]) (by simp [Phase.rank])
      (fun _ => hq) (by simp [Phase.rank]) (by simp [Phase.slots])
  | iocpCore =>
    have hq := hi.quiet (by simp [hp, Phase.rank])
    simp only [hp] at h
    split_ifs at h with hall
    cases h
    exact hi.next (by simp [hp, Phase.rank]) hmain hacc (fun _ => hall) (by simp [Phase.rank])
      (fun _ => hq) (by simp [Phase.rank]) (by simp [Phase.slots])
  | packetHandler =>
    have hq := hi.quiet (by simp [hp, Phase.rank])
    have hiocp := hi.iocp (by simp [hp, Phase.rank])
    simp only [hp] at h
    split_ifs at h with hall
    cases h
    exact hi.next (by simp [hp, Phase.rank]) hmain hacc (fun _ => hiocp) (fun _ => hall)
      (fun _ => hq) (fun _ => htasks (by simp [hp, Phase.rank])) (by simp [Phase.slots])
  | packetPool =>
    simp only [hp] at h
    cases h
    exact hi.finish (by simp [hp, Phase.rank]) (by simp [hp, Phase.rank]) (by simp [Phase.slots])
  | taskQueue =>
    have h0 : s.engine.tasks = [] := hi.tasks (by simp [hp, Phase.rank])
    simp only [hp, h0] at h
    cases h
    exact hi.finish (by simp [hp, Phase.rank]) (by simp [hp, Phase.rank]) (by simp [Phase.slots])
  | sessionPtrs rest =>
    have hr : 5 < s.phase.rank := by simp [hp, Phase.rank]
    cases rest with
    | nil =>
      simp only [hp] at h
      cases h
      exact hi.finish hr (by simp [hp, Phase.rank]) fun k => mem_ovs
    | cons k rest =>
      have hslots : ∀ j ∈ k :: rest, j < N := by
        intro j hj
        exact hi.slots j (by rwa [hp])
      have hk := hslots k List.mem_cons_self
      have h0 : s.engine.sessionPtrs k = none := (hi.good.unused (hi.quiet (by omega)) hk).1
      simp only [hp, h0, Engine.releasePtr, Option.bind_eq_bind, Option.bind_some,
        Option.pure_def, Engine.clearPtr_none h0, Engine.putCode_nil hmain] at h
      cases h
      exact hi.finish hr (by simp [hp, Phase.rank]) fun j hj => hslots j (List.mem_cons_of_mem k hj)
  | sessionPool rest =>
    have hr : 5 < s.phase.rank := by simp [hp, Phase.rank]
    cases rest with
    | nil =>
      simp only [hp] at h
      cases h
      exact hi.finish hr (by simp [hp, Phase.rank]) (by simp [Phase.slots])
    | cons kx rest =>
      obtain ⟨k, x⟩ := kx
      have hslots : ∀ j ∈ k :: rest.map Prod.fst, j < N := by
        intro j hj
        exact hi.slots j (by rwa [hp])
      have h0 := (hi.good.unused (hi.quiet (by omega)) (hslots k List.mem_cons_self)).2.1 x
      simp only [hp, Engine.resetOv_none h0, Option.bind_eq_bind, Option.bind_some,
        Option.pure_def, Engine.putCode_nil hmain] at h
      cases h
      exact hi.finish hr (by simp [hp, Phase.rank]) fun j hj => hslots j (List.mem_cons_of_mem k hj)
  | done =>
    simp only [hp] at h
    cases h

/-- A worker that has been told to ends. -/
theorem Inv.exit (hi : s.Inv) {a : Thread n} (hcode : s.engine.code a = []) (htold : s.told a = true) :
    Inv { s with ended := Function.update s.ended a true } := by
  have hmono : ∀ b, s.ended b = true → Function.update s.ended a true b = true := by
    intro b hb
    rw [Function.update_apply]
    split
    · rfl
    · exact hb
  refine ⟨hi.good, fun b hb => ?_, hi.main, hi.accounts, fun hr i => hmono _ (hi.iocp hr i),
    fun hr j => hmono _ (hi.packet hr j), hi.quiet, hi.tasks, hi.slots⟩
  by_cases e : b = a
  · subst e
    exact ⟨htold, hcode⟩
  · have hb' : s.ended b = true := by
      rw [← hb]
      exact (Function.update_of_ne e ..).symm
    exact hi.ended b hb'

/-- **The invariant is kept.** -/
theorem Inv.step (hN : N < 2 ^ 32) (hi : s.Inv) (hok : s.Orderly e)
    (h : s.step kMaxAccept e = some s') : s'.Inv := by
  cases e with
  | engine e =>
    simp only [Teardown.step] at h
    split_ifs at h with ha
    obtain ⟨t, ht, h⟩ := Option.bind_eq_some_iff.mp h
    cases h
    exact hi.engine hN hok ha ht
  | exit a =>
    simp only [Teardown.step] at h
    split_ifs at h with ha
    cases h
    exact hi.exit ha.1 ha.2
  | destroy =>
    simp only [Teardown.step] at h
    split_ifs at h with hmain
    exact hi.destroy hmain hok h

/-! ### What is used -/

/-- An instruction of an orderly destruction uses what is still there. -/
theorem Inv.uses_code (hi : s.Inv) {a : Thread n} {i : Instr} {rest : List Instr}
    (hc : s.engine.code a = i :: rest) : ∀ m ∈ i.uses, s.phase.rank < begins m := by
  have hmem : i ∈ s.engine.code a := hc ▸ List.mem_cons_self
  -- whoever is on the way to the accounts is so before the destruction
  have hacc : i.accounts = true → s.phase.rank = 0 := by
    intro hi'
    by_contra hr
    rw [hi.accounts (Nat.pos_of_ne_zero hr) a i hmem] at hi'
    cases hi'
  have hlate : s.phase.rank ≤ 5 := by
    by_contra hr
    rw [hi.stopped (by omega) a] at hc
    cases hc
  intro m hm
  cases m with
  | accountManager => exact (hacc (Instr.uses_accounts (.inl hm))).trans_lt (by decide)
  | dbManager => exact (hacc (Instr.uses_accounts (.inr hm))).trans_lt (by decide)
  | listener =>
    by_contra hr
    have hq := hi.quiet (show 2 < s.phase.rank from Nat.le_of_not_lt hr)
    rcases Instr.uses_listener hm with hposts | ⟨w, hw, hheld⟩
    · rw [hq.posts a i hmem] at hposts
      cases hposts
    · obtain ⟨hholds, -, hneeds⟩ := hi.good.unused_code hq hmem hw
      simp [hholds, hneeds] at hheld
  | packetPool => exact Nat.lt_succ_of_le hlate
  | sessionPool => exact hlate.trans_lt (by decide)

/-- The destructors of an orderly destruction release nothing. -/
theorem Inv.uses_destroy (hi : s.Inv) : s.uses .destroy = [] := by
  simp only [uses]
  cases hp : s.phase with
  | taskQueue => exact if_pos (hi.tasks (by simp [hp, Phase.rank]))
  | sessionPtrs rest =>
    cases rest with
    | nil => rfl
    | cons k rest =>
      have hk : k < N := hi.slots k (by simp [hp, Phase.slots])
      simp [(hi.good.unused (hi.quiet (by simp [hp, Phase.rank])) hk).1]
  | sessionPool rest =>
    cases rest with
    | nil => rfl
    | cons kx rest =>
      have hk : kx.1 < N := hi.slots kx.1 (by simp [hp, Phase.slots])
      simp [(hi.good.unused (hi.quiet (by simp [hp, Phase.rank])) hk).2.1 kx.2]
  | _ => rfl

/-- **An orderly destruction uses nothing whose destruction has begun.** -/
theorem teardown_safe (hN : N < 2 ^ 32) (r : Runs (step kMaxAccept) Orderly (start n N) es s) :
    ∀ m ∈ s.uses e, ¬ s.Begun m := by
  have hi : s.Inv := r.invariant (start_inv hN) fun _ _ _ hi hok h => hi.step hN hok h
  intro m hm
  cases e with
  | exit a => cases hm
  | destroy =>
    rw [hi.uses_destroy] at hm
    cases hm
  | engine e =>
    cases e with
    | run a o =>
      cases hc : s.engine.code a with
      | nil => simp [uses, hc] at hm
      | cons i rest =>
        simp only [uses, hc, List.head?_cons, Option.elim_some] at hm
        exact Nat.not_le.mpr (hi.uses_code hc m hm)
    | _ => cases hm

/-! ### A client that is accepted meanwhile -/

/-- One accept is posted, and the main thread begins `destroyed` destructors; then a client is
accepted, and the worker `i` has taken the completion. -/
def accepting {n : Nat} (i : Fin n) (destroyed : Nat) : List (Event n) :=
  (.postAccept .main :: Engine.runs .main 13).map .engine ++ List.replicate destroyed .destroy ++
    [.engine (.accepted 0), .engine (.dequeue (.iocp i) 0 .recv true false),
      .engine (.run (.iocp i) Engine.well)]

/-- The whole destruction of a server with one session and the workers `i` and `j`, up to its last
step. -/
def whole {n : Nat} (i : Fin n) (j : Fin Config.kWorkerThreadCount) : List (Event n) :=
  List.replicate 4 .destroy ++ .exit (.iocp i) :: .destroy :: .exit (.packet j) ::
    List.replicate 8 .destroy

/-- A client is accepted in time, when the accounts only are being destroyed; and a server that has
not been started is destroyed to its end. -/
theorem teardown_safe_accept :
    (∃ s : Teardown 1 Config.kMaxSession,
      Runs (step 1) Orderly (start 1 Config.kMaxSession) (accepting 0 1) s ∧
        s.uses (.engine (.run (.iocp 0) Engine.well)) = [.listener, .sessionPool] ∧
        ¬ s.Begun .listener ∧ ¬ s.Begun .sessionPool) ∧
    ∃ s : Teardown 1 1, Runs (step 1) Orderly (start 1 1) (whole 0 ⟨0, by decide⟩) s ∧
      (s.step 1 .destroy).map (·.phase.rank) = some 10 ∧ ∀ m ∈ s.uses .destroy, ¬ s.Begun m := by
  constructor
  · have hexec : (execIf (fun s e => decide (s.Orderly e)) (step 1) (start 1 Config.kMaxSession)
        (accepting 0 1)).map (·.uses (.engine (.run (.iocp 0) Engine.well))) =
        some [.listener, .sessionPool] := by
      decide +kernel
    obtain ⟨s, hs, h⟩ := Option.map_eq_some_iff.mp hexec
    have r : Runs (step 1) Orderly (start 1 Config.kMaxSession) (accepting 0 1) s :=
      Runs.of_execIf (I := fun _ => True) (fun _ _ _ h => of_decide_eq_true h)
        (fun _ _ _ _ _ _ => trivial) trivial hs
    have hsafe := teardown_safe (e := .engine (.run (.iocp 0) Engine.well)) (by decide) r
    rw [h] at hsafe
    exact ⟨s, r, h, hsafe _ (by simp), hsafe _ (by simp)⟩
  · have hexec : (execIf (fun s e => decide (s.Orderly e)) (step 1) (start 1 1) (whole 0 ⟨0, by decide⟩)).map
        (fun s => (s.step 1 .destroy).map (·.phase.rank)) = some (some 10) := by
      decide +kernel
    obtain ⟨s, hs, h⟩ := Option.map_eq_some_iff.mp hexec
    have r : Runs (step 1) Orderly (start 1 1) (whole 0 ⟨0, by decide⟩) s :=
      Runs.of_execIf (I := fun _ => True) (fun _ _ _ h => of_decide_eq_true h)
        (fun _ _ _ _ _ _ => trivial) trivial hs
    exact ⟨s, r, h, teardown_safe (by decide) r⟩

/-- Too late: `~Listener` has begun, and the completion is counted down on the listener. -/
theorem accept_uses_listener : ∃ s s' : Teardown 1 Config.kMaxSession,
    Runs (step 1) Always (start 1 Config.kMaxSession) (accepting 0 3) s ∧
      s.step 1 (.engine (.run (.iocp 0) Engine.well)) = some s' ∧
      .listener ∈ s.uses (.engine (.run (.iocp 0) Engine.well)) ∧ s.Begun .listener := by
  have hexec : (exec (step 1) (start 1 Config.kMaxSession) (accepting 0 3)).map (fun s =>
      ((s.step 1 (.engine (.run (.iocp 0) Engine.well))).isSome,
        decide (.listener ∈ s.uses (.engine (.run (.iocp 0) Engine.well))),
        decide (s.Begun .listener))) = some (true, true, true) := by
    decide +kernel
  obtain ⟨s, hs, h⟩ := Option.map_eq_some_iff.mp hexec
  simp only [Prod.mk.injEq, decide_eq_true_eq] at h
  obtain ⟨s', hs'⟩ := Option.isSome_iff_exists.mp h.1
  exact ⟨s, s', Runs.of_exec hs fun _ _ _ => trivial, hs', h.2⟩

end Teardown

end IocpServer
