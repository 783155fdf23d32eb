import IocpServer.Server.Pinned

/-!
# Server — Accepts

The listener of an accept.  `RegisterAccept` posts the accept, and `SetListener` comes behind it: the
completion may be there first.

* `accept_listened`: as long as no completion of an accept is taken from the port while a thread is
  between the two with its session, whoever processes one finds the listener.
-/

namespace IocpServer

namespace Instr

/-- On the way to `SetListener`. -/
def listens : Instr → Bool
  | .register _ p | .assign _ p _ | .post _ p => p.ioType == .kAccept
  | .setListener _ => true
  | _ => false

/-- A completion of `recvOv_` that is being processed, with `ioType_` to be loaded. -/
def takes : Instr → Bool
  | .complete _ x _ _ | .handleError _ x | .failed _ x _ | .dispatch _ x _ | .dispatched _ x _ _ =>
      x == .recv
  | _ => false

/-- `GetListener` is called. -/
def getsListener : Instr → Bool
  | .countDown _ | .handleAccept _ => true
  | _ => false

end Instr

attribute [simp] Instr.listens.eq_1 Instr.listens.eq_2 Instr.listens.eq_3 Instr.listens.eq_4
  Instr.listens.eq_5 Instr.takes.eq_1 Instr.takes.eq_2 Instr.takes.eq_3 Instr.takes.eq_4
  Instr.takes.eq_5 Instr.takes.eq_6 Instr.getsListener.eq_1 Instr.getsListener.eq_2
  Instr.getsListener.eq_3

namespace Conn

variable (c : Conn) (x : Ov)

@[simp] theorem setType_listener (t : IoType) : (c.setType x t).listener = c.listener := rfl

@[simp] theorem setPtr_listener (p : Option Nat) : (c.setPtr x p).listener = c.listener := rfl

@[simp] theorem queue_listener : (c.queue x).listener = c.listener := rfl

@[simp] theorem deliver_listener : (c.deliver x).listener = c.listener := rfl

@[simp] theorem unlock_listener : (c.unlock x).listener = c.listener := rfl

end Conn

theorem Instr.takes_le (C : Multiset Instr) : num takes C ≤ num receives C :=
  num_le (fun i hi => by cases i <;> simp_all) C

theorem Handler.getsListener {w : Nat} {zero : Bool} {t : IoType} {i : Instr} (h : Handler w zero t i)
    (ht : t ≠ .kAccept) : i.getsListener = false := by
  cases h with
  | accept => exact absurd rfl ht
  | _ => rfl

namespace Seat

variable {w : Nat} {v v' : Seat} {a : Act} {is is' : List Instr} {M : Multiset Instr}

/-- A completion of an accept is taken from the port behind `SetListener`. -/
def InTime (v : Seat) (C : Multiset Instr) : Act → Prop
  | .dequeue x _ _ => (v.conn.ov x).ioType = .kAccept → num Instr.listens C = 0
  | _ => True

/-- **The listener of a session.** -/
structure Listened (v : Seat) (C : Multiset Instr) : Prop where
  told : (v.conn.ov .recv).ioType = .kAccept → v.conn.listener = false → 0 < num Instr.listens C
  taken : (v.conn.ov .recv).ioType = .kAccept → 0 < num Instr.takes C → v.conn.listener = true
  got : 0 < num Instr.getsListener C → v.conn.listener = true

/-- Only a completion of `recvOv_` is marked as an accept. -/
theorem Flight.of_accept {C : Multiset Instr} (hf : v.Flight C) (hb : Base w v C) {x : Ov}
    (hx : x = .disconnect → 0 < num Instr.typed C) (ht : (v.conn.ov x).ioType = .kAccept) :
    x = .recv := by
  cases x with
  | recv => rfl
  | send => exact absurd ht hf.send_type.1
  | disconnect =>
    rw [hb.disconnect_type (by have := hx rfl; omega)] at ht
    cases ht

theorem told_step (h : SeatStep w v a is is' v') (hl : v.Listened (is + M))
    (hb : Base w v (is + M)) : (v'.conn.ov .recv).ioType = .kAccept → v'.conn.listener = false →
      0 < num Instr.listens (is' + M) := by
  have ht := hl.told
  cases h with
  | init => simp [Conn.init]
  | register hd =>
    rename_i p o
    cases p <;> simp at hd ht ⊢ <;> exact ht
  | setListener => simp
  | acceptPosted | acceptFailed => simp
  | dispatched hi =>
    simp [countP_last, hi.count Instr.listens] at ht ⊢
    exact ht
  | overflow hp => simpa [hp] using ht
  | posted hp | notPosted hp =>
    have hacc := (Purpose.ne_disconnect hp)
    rcases hp with e | e <;> simpa [countP_last, e] using ht
  | sendIdle =>
    rename_i p o _ _ _
    have hp : p.ioType = .kSend := hb.names (.sendPacket w p) (by simp)
    simpa [hp] using ht
  | _ =>
    intro hacc hnot
    have := ht (by simpa using hacc) (by simpa using hnot)
    simp [countP_last] at this ⊢ <;> omega

theorem taken_step (h : SeatStep w v a is is' v') (hl : v.Listened (is + M))
    (hf : v.Flight (is + M)) (hok : v.InTime (is + M) a) : (v'.conn.ov .recv).ioType = .kAccept →
      0 < num Instr.takes (is' + M) → v'.conn.listener = true := by
  have ht := hl.taken
  cases h with
  | init => simp [Conn.init]
  | register hd =>
    rename_i p o
    have hr := hf.recv_once
    have hle := Instr.takes_le M
    cases p <;> simp at hd hr ht ⊢ <;> (try exact ht)
    omega
  | setListener => exact fun _ _ => rfl
  | dequeue =>
    rename_i x ok zero _ _
    have htold := hl.told
    intro hacc hpos
    cases x with
    | recv =>
      have h0 := hok (by simpa using hacc)
      by_contra hnot
      have := htold (by simpa using hacc) (by simpa using hnot)
      omega
    | _ => exact ht (by simpa using hacc) (by simpa using hpos)
  | dispatched hi =>
    simp [countP_last, hi.count Instr.takes] at ht ⊢
    exact fun hacc hpos => ht hacc (.inl hpos)
  | complete | completeError | handleError | dispatch =>
    intro hacc hpos
    refine ht hacc (hpos.trans_le ?_)
    simp [List.countP_cons]
    omega
  | _ =>
    intro hacc hpos
    refine ht (by simpa using hacc) (hpos.trans_le ?_)
    simp [countP_last]

theorem got_step (h : SeatStep w v a is is' v') (hl : v.Listened (is + M)) (hf : v.Flight (is + M))
    (hb : Base w v (is + M)) (hcov : Cover (is + M)) : 0 < num Instr.getsListener (is' + M) →
      v'.conn.listener = true := by
  have hg := hl.got
  cases h with
  | init =>
    -- whoever calls `GetListener` has a reference, and nobody has
    intro hpos
    have hc := hb.creating (by simp)
    have hzero : num Instr.getsListener (↑[Instr.init _] + M) = 0 :=
      hcov.num_eq_zero (by have := hc.2; simp only [held] at this; omega) fun i hi => by
        cases i <;> simp [Instr.needs] at hi ⊢
    simp at hzero hpos
    omega
  | setListener => exact fun _ => rfl
  | complete | completeError =>
    rename_i x zero g o hptr
    intro hpos
    by_cases hacc : (v.conn.ov x).ioType = .kAccept
    · obtain rfl := hf.of_accept hb (by rintro rfl; simp) hacc
      exact hl.taken hacc (by simp)
    · simp [accepts, hacc] at hpos
      exact hg (by simpa using hpos)
  | dispatched hi =>
    rename_i x zero g i o
    intro hpos
    by_cases hacc : (v.conn.ov x).ioType = .kAccept
    · obtain rfl := hf.of_accept hb (by rintro rfl; simp) hacc
      exact hl.taken hacc (by simp)
    · have hi' := hi.getsListener hacc
      simp [countP_last, hi'] at hpos
      exact hg (by simpa using hpos)
  | _ =>
    intro hpos
    refine hg (hpos.trans_le ?_)
    simp [countP_last]

/-- A step of a slot, when no completion of an accept is taken too early. -/
theorem Listened.step (hl : v.Listened (is + M)) (hf : v.Flight (is + M)) (hb : Base w v (is + M))
    (h : SeatStep w v a is is' v') (hcov : Cover (is + M)) (hok : v.InTime (is + M) a) :
    v'.Listened (is' + M) where
  told := told_step h hl hb
  taken := taken_step h hl hf hok
  got := got_step h hl hf hb hcov

theorem fresh_listened : fresh.Listened 0 := by
  refine ⟨?_, ?_, ?_⟩ <;> simp [fresh, Conn.fresh]

end Seat

namespace Engine

variable {ι : Type} {N kMaxAccept : Nat} {s s' : Engine ι N} {e : Event ι} {es : List (Event ι)}
  {w : Nat} {a : Act} {is is' fs fs' : List Instr}

/-- A completion of an accept is taken from the port when no thread is between `RegisterAccept` and
`SetListener` with its session. -/
def InTime (s : Engine ι N) : Event ι → Prop
  | .dequeue _ w x _ _ => ((s.sessions w).ov x).ioType = .kAccept →
      ∀ b, ∀ i ∈ s.code b, i.slot = some w → i.listens = false
  | _ => True

/-- The instruction is part of what `WorkerThread` does for a completion that is marked as an
accept. -/
def Processes (s : Engine ι N) : Instr → Prop
  | .complete w x _ _ | .handleError w x | .failed w x _ | .dispatch w x _ | .dispatched w x _ _ =>
      ((s.sessions w).ov x).ioType = .kAccept
  | .countDown _ | .handleAccept _ => True
  | _ => False

variable [Fintype ι]

theorem InTime.act (he : s.InTime e) (ht : Touches s s' e w a is fs fs') :
    (s.view w).InTime (s.codeAt w) a := by
  cases ht with
  | dequeue =>
    intro hacc
    refine num_eq_zero.mpr fun i hi => ?_
    obtain ⟨⟨b, hb⟩, hs⟩ := mem_codeAt.mp hi
    exact he hacc b i hb hs
  | _ => trivial

variable [DecidableEq ι]

theorem run_listened (hN : N < 2 ^ 32) {ok : Engine ι N → Event ι → Prop}
    (hok : ∀ t e, ok t e → t.Fits ∧ t.Tame e ∧ t.InTime e)
    (r : Runs (step kMaxAccept) ok (start ι N) es s) :
    s.Good ∧ s.Steady ∧ ∀ w < N, (s.view w).Listened (s.codeAt w) := by
  refine r.invariant (I := fun s => s.Good ∧ s.Steady ∧ ∀ w < N, (s.view w).Listened (s.codeAt w))
    ⟨start_good hN, start_steady, fun w _ => ?_⟩ ?_
  · have hall : (start ι N).all = 0 := Finset.sum_eq_zero fun _ _ => rfl
    rw [codeAt, hall, Multiset.filter_zero]
    exact Seat.fresh_listened
  · intro t e u h hte hu
    obtain ⟨hg, hs, hl⟩ := h
    obtain ⟨hf, ht, hin⟩ := hok t e hte
    refine ⟨hg.step hN hf hu, hs.step hN hg hf ht hu, hg.slots hN hf hu hl ?_⟩
    intro w hw a is is' fs fs' M hst htch hM
    have hlisten := hl w hw
    have hflight := hs.flight w hw
    have hb := hg.base w hw
    have hcov := hg.cover w
    have hact := hin.act htch
    rw [hM] at hlisten hflight hb hcov hact
    exact hlisten.step hflight hb hst hcov hact

/-- **The completion of an accept finds its listener**, in every run in which none is taken from the
port before `SetListener`. -/
theorem accept_listened (hN : N < 2 ^ 32)
    (r : Runs (step kMaxAccept) (fun s e => s.Fits ∧ s.Tame e ∧ s.InTime e) (start ι N) es s) {a : ι}
    {i : Instr} (hi : i ∈ s.code a) {w : Nat} (hw : i.slot = some w) (hp : s.Processes i) :
    (s.sessions w).listener = true := by
  obtain ⟨hg, hs, hl⟩ := run_listened hN (fun _ _ h => h) r
  have hwN := hg.inRange a i hi w hw
  have hlisten := hl w hwN
  have hmem : i ∈ s.codeAt w := mem_codeAt.mpr ⟨⟨a, hi⟩, hw⟩
  have hnames := (hg.base w hwN).names i hmem
  have key : ∀ x, (x = .disconnect → i.typed = true) → (x = .recv → i.takes = true) →
      ((s.sessions w).ov x).ioType = .kAccept → (s.sessions w).listener = true := by
    intro x hd hr hacc
    obtain rfl := (hs.flight w hwN).of_accept (hg.base w hwN) (fun e => num_pos hmem (hd e)) hacc
    exact hlisten.taken hacc (num_pos hmem (hr rfl))
  cases i with
  | complete k x ok zero =>
    obtain rfl : k = w := Option.some.inj hw
    exact key x (by rintro rfl; rfl) (by rintro rfl; rfl) hp
  | handleError k x =>
    obtain rfl : k = w := Option.some.inj hw
    exact key x (by rintro rfl; rfl) (by rintro rfl; rfl) hp
  | failed k x g =>
    obtain rfl : k = w := Option.some.inj hw
    exact key x (fun e => absurd e hnames.2) (by rintro rfl; rfl) hp
  | dispatch k x zero =>
    obtain rfl : k = w := Option.some.inj hw
    exact key x (by rintro rfl; rfl) (by rintro rfl; rfl) hp
  | dispatched k x g zero =>
    obtain rfl : k = w := Option.some.inj hw
    exact key x (by rintro rfl; rfl) (by rintro rfl; rfl) hp
  | countDown | handleAccept => exact hlisten.got (num_pos hmem rfl)
  | _ => exact hp.elim

instance (s : Engine ι N) (e : Event ι) : Decidable (s.Tame e) :=
  match e with
  | .call _ _ call => inferInstanceAs (Decidable (call = .send))
  | .task _ => inferInstanceAs (Decidable (∀ t ∈ s.tasks.head?,
      (s.view t.slot).cell.state ≠ 0 ∧ num Instr.creates (s.codeAt t.slot) = 0))
  | .run a _ => inferInstanceAs (Decidable (∀ w ∈ (s.code a).head?.bind Instr.pushed,
      ∀ b, .taskEnd w ∉ s.code b))
  | .postAccept _ | .accepted _ | .disconnected _ | .dequeue .. => .isTrue trivial

instance (s : Engine ι N) (e : Event ι) : Decidable (s.InTime e) :=
  match e with
  | .dequeue _ w x _ _ => inferInstanceAs (Decidable (((s.sessions w).ov x).ioType = .kAccept →
      ∀ b, ∀ i ∈ s.code b, i.slot = some w → i.listens = false))
  | .postAccept _ | .call .. | .task _ | .accepted _ | .disconnected _ | .run .. => .isTrue trivial

/-- `SetListener`, and then the completion. -/
theorem accept_listened_posted : ∃ (s : Engine (Fin 2) 1) (rest : List Instr),
    Runs (step 1) (fun s e => s.Fits ∧ s.Tame e ∧ s.InTime e) (start (Fin 2) 1)
        (.postAccept 0 :: runs 0 13 ++ .accepted 0 :: .dequeue 1 0 .recv true false :: runs 1 1) s ∧
      s.code 1 = .countDown 0 :: rest ∧ (s.sessions 0).listener = true := by
  have hexec : (execIf (fun s e => decide (s.Fits ∧ s.Tame e ∧ s.InTime e)) (step 1)
      (start (Fin 2) 1)
      (.postAccept 0 :: runs 0 13 ++ .accepted 0 :: .dequeue 1 0 .recv true false :: runs 1 1)).map
        (fun s => s.code 1) = some [.countDown 0, .dispatch 0 .recv false, .drop 0] := by
    decide +kernel
  obtain ⟨s, hs, hcode⟩ := Option.map_eq_some_iff.mp hexec
  have r : Runs (step 1) (fun s e => s.Fits ∧ s.Tame e ∧ s.InTime e) (start (Fin 2) 1)
      (.postAccept 0 :: runs 0 13 ++ .accepted 0 :: .dequeue 1 0 .recv true false :: runs 1 1) s :=
    Runs.of_execIf (I := fun _ => True) (fun _ _ _ h => of_decide_eq_true h)
      (fun _ _ _ _ _ _ => trivial) trivial hs
  have hmem : .countDown 0 ∈ s.code 1 := by
    rw [hcode]
    exact List.mem_cons_self
  exact ⟨s, _, r, hcode, accept_listened (by decide) r hmem (w := 0) (by decide) trivial⟩

/-- **The completion of an accept before `SetListener`**: the worker that has taken it calls
`GetListener()->DecrementPendingAccepts()` through a null pointer. -/
theorem accept_unlistened : ∃ (s : Engine (Fin 2) 1) (rest : List Instr),
    Runs (step 1) (fun s _ => s.Fits) (start (Fin 2) 1)
        (.postAccept 0 :: runs 0 10 ++ .accepted 0 :: .dequeue 1 0 .recv true false :: runs 1 1) s ∧
      s.code 1 = .countDown 0 :: rest ∧ (s.sessions 0).listener = false ∧
      (s.step 1 (.run 1 well)).isNone := by
  have hexec : (execIf (fun s _ => decide s.Fits) (step 1) (start (Fin 2) 1)
      (.postAccept 0 :: runs 0 10 ++ .accepted 0 :: .dequeue 1 0 .recv true false :: runs 1 1)).map
        (fun s => decide (s.code 1 = [.countDown 0, .dispatch 0 .recv false, .drop 0] ∧
          (s.sessions 0).listener = false ∧ (s.step 1 (.run 1 well)).isNone)) = some true := by
    decide +kernel
  obtain ⟨s, hs, heq⟩ := Option.map_eq_some_iff.mp hexec
  refine ⟨s, _, ?_, of_decide_eq_true heq⟩
  exact Runs.of_execIf (I := fun _ => True) (fun _ _ _ h => of_decide_eq_true h)
    (fun _ _ _ _ _ _ => trivial) trivial hs

end Engine

end IocpServer
