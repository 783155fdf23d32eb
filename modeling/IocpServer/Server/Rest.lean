import IocpServer.Server.Leak
import IocpServer.Server.Pending

/-!
# Server — Rest

What a slot waits for when no thread is about it.  A pending session waits for its `AcceptEx`, a
connected one for its `WSARecv`, and one that is being disconnected for its `DisconnectEx`, or, when
that has been processed, for the receive and the send that still refer to it.

* `Seat.Waits`: the mark of `recvOv_` goes with the state.
* `Seat.Resting`: the slots that no thread is about.
* `resting_slot`: there are no others, in every run.
-/

namespace IocpServer

/-- Of a session that is connected. -/
def Purpose.serves : Purpose → Bool
  | .firstRecv _ | .nextRecv | .welcome _ => true
  | _ => false

namespace Instr

/-- What is done only for a session that is connected. -/
def serves : Instr → Bool
  | .register _ p | .assign _ p _ | .post _ p | .sendPacket _ p => p.serves
  | .onRecv _ => true
  | _ => false

/-- A completion of `recvOv_` on its way to its handler. -/
def awaits : Instr → Bool
  | .complete _ x _ _ | .handleError _ x | .dispatch _ x _ | .dispatched _ x _ _ => x == .recv
  | _ => false

end Instr

attribute [simp] Purpose.serves.eq_1 Purpose.serves.eq_2 Purpose.serves.eq_3 Purpose.serves.eq_4
  Instr.serves.eq_1 Instr.serves.eq_2 Instr.serves.eq_3 Instr.serves.eq_4 Instr.serves.eq_5
  Instr.serves.eq_6 Instr.awaits.eq_1 Instr.awaits.eq_2 Instr.awaits.eq_3 Instr.awaits.eq_4
  Instr.awaits.eq_5

theorem Instr.serves_le (C : Multiset Instr) :
    num serves C + num awaits C + num creates C ≤ num receives C := by
  induction C using Multiset.induction_on with
  | empty => exact Nat.le_refl _
  | cons i C ih =>
      rw [num_cons, num_cons, num_cons, num_cons]
      cases i with
      | register w p | assign w p _ | post w p | sendPacket w p => cases p <;> simp at ih ⊢ <;> omega
      | _ =>
        simp at ih ⊢
        omega

theorem serves_after (w : Nat) {p : Purpose} (b : Bool) (h : p.serves = false) :
    ∀ i ∈ p.after w b, i.serves = false := by
  cases p <;> cases b <;> simp_all [Purpose.after]

theorem awaits_after (w : Nat) (p : Purpose) (b : Bool) : ∀ i ∈ p.after w b, i.awaits = false := by
  cases p with
  | welcome k | firstRecv k => cases k <;> cases b <;> simp [Purpose.after]
  | _ => cases b <;> simp [Purpose.after]

theorem Handler.awaits {w : Nat} {zero : Bool} {t : IoType} {i : Instr} (h : Handler w zero t i) :
    i.awaits = false := by
  cases h <;> rfl

/-- Only the port brings a completion. -/
theorem SeatStep.awaits {w : Nat} {v v' : Seat} {a : Act} {is is' : List Instr}
    (h : SeatStep w v a is is' v') (ha : ∀ x ok zero, a ≠ .dequeue x ok zero) :
    is'.countP Instr.awaits ≤ is.countP Instr.awaits := by
  cases h with
  | dequeue => exact absurd rfl (ha _ _ _)
  | overflow | posted | sendFull | sendBusy =>
    rw [List.countP_eq_zero.mpr fun i hi => by simp [awaits_after w _ _ i hi]]
    exact Nat.zero_le _
  | notPosted =>
    rename_i p o _ _
    have haft : (p.after w false).countP Instr.awaits = 0 :=
      List.countP_eq_zero.mpr fun i hi => by simp [awaits_after w p false i hi]
    simp [countP_last, haft]
  | connectLate =>
    rw [List.countP_eq_zero.mpr fun i hi => by simp [awaits_after w _ _ i hi]]
    exact Nat.zero_le _
  | dispatched hi => simp [countP_last, hi.awaits]
  | lookup =>
    rename_i g call _
    cases call <;> simp [Call.body]
  | execute =>
    rename_i t o
    cases t.kind <;> simp [TaskKind.body]
  | _ => simp [countP_last, List.countP_cons]

theorem Handler.serves {w : Nat} {zero : Bool} {t : IoType} {i : Instr} (h : Handler w zero t i)
    (hi : i.serves = true) : i.receives = true ∧ t = .kRecv := by
  cases h <;> simp at hi ⊢

namespace Seat

variable {w : Nat} {v v' : Seat} {a : Act} {is is' : List Instr} {M : Multiset Instr}

/-- **What is in flight on `recvOv_`.** -/
structure Waits (v : Seat) (C : Multiset Instr) : Prop where
  early : v.cell.state = 1 → num Instr.serves C = 0
  accept : v.cell.state = 1 → 0 < (v.conn.ov .recv).ops + num Instr.awaits C →
    (v.conn.ov .recv).ioType = .kAccept
  recv : v.cell.state = 2 → 0 < (v.conn.ov .recv).ops → (v.conn.ov .recv).ioType = .kRecv

theorem early_step (h : SeatStep w v a is is' v') (hk : v.Waits (is + M)) (hf : v.Flight (is + M))
    (hb : Base w v (is + M)) (hcov : Cover (is + M)) (hok : v.Allowed (is + M) a) :
    v'.cell.state = 1 → num Instr.serves (is' + M) = 0 := by
  have he := hk.early
  cases h with
  | pop h0 =>
    obtain ⟨-, -, -, -, -, hrec⟩ := hf.still hb hcov (.inl h0)
    have hle := Instr.serves_le (↑([] : List Instr) + M)
    simp at hrec hle ⊢
    omega
  | connectSession | push | setState => simp
  | overflow | notPosted | sendFull =>
    rename_i p o _ _
    intro hst
    have h0 := he hst
    simp at h0
    simp [countP_last, h0.1]
    exact serves_after w false h0.2
  | posted | sendBusy =>
    rename_i p o _ _ _
    intro hst
    have h0 := he hst
    simp at h0
    simp [h0.1]
    exact serves_after w true h0.2
  | connectLate _ hst =>
    intro e
    exact absurd e hst
  | dispatched hi =>
    rename_i x zero g i o
    intro hst
    have h0 := he hst
    have hserves : i.serves = false := by
      -- a completion of `recvOv_` is that of an accept
      cases hi' : i.serves with
      | false => rfl
      | true =>
        obtain ⟨hrec, htype⟩ := hi.serves hi'
        obtain rfl := (hf.handler hb (g := g) hi (by simp)).1 hrec
        cases (hk.accept hst (by simp)).symm.trans htype
    simp [countP_last, hserves] at h0 ⊢
    exact h0
  | lookup =>
    obtain rfl : _ = Call.send := hok
    simp [Call.body] at he ⊢
    exact he
  | execute =>
    rename_i t o
    cases t.kind <;> simp [TaskKind.body] at he ⊢ <;> exact he
  | _ =>
    simp [countP_last, List.countP_cons] at he ⊢
    first | exact he | tauto

theorem accept_step (h : SeatStep w v a is is' v') (hk : v.Waits (is + M)) (hf : v.Flight (is + M))
    (hb : Base w v (is + M)) (hcov : Cover (is + M)) (hm : v.Marked (is + M)) :
    v'.cell.state = 1 → 0 < (v'.conn.ov .recv).ops + num Instr.awaits (is' + M) →
      (v'.conn.ov .recv).ioType = .kAccept := by
  intro hst hpos
  have hr := hf.recv_once
  have hle := Instr.serves_le M
  have frame : v.cell.state = 1 → (v'.conn.ov .recv).ioType = (v.conn.ov .recv).ioType →
      (v'.conn.ov .recv).ops ≤ (v.conn.ov .recv).ops →
      (∀ x ok zero, a ≠ .dequeue x ok zero) → (v'.conn.ov .recv).ioType = .kAccept := by
    intro hst htype hops ha
    rw [htype]
    refine hk.accept hst (hpos.trans_le (Nat.add_le_add hops ?_))
    rw [num_add, num_add, num_coe, num_coe]
    exact Nat.add_le_add_right (h.awaits ha) _
  cases h with
  | pop h0 =>
    obtain ⟨hops, -, -, -, -, hrec⟩ := hf.still hb hcov (.inl h0)
    have h0' := hops .recv
    simp at hrec hpos
    omega
  | connectSession | push | setState => simp at hst
  | init =>
    simp [Conn.init] at hr hpos
    omega
  | register hd =>
    rename_i p o
    by_cases hx : p.ov = .recv
    · have hrec : p.receives = true := by cases p <;> simp at hx ⊢
      simp [hrec] at hr
      simp [hx] at hpos
      omega
    · have hx' : Ov.recv ≠ p.ov := fun e => hx e.symm
      exact frame hst (by simp [hx']) (by simp) (by simp)
  | acceptPosted =>
    simp
    exact hm .kAccept (by simp)
  | posted hp =>
    rename_i p o _ _
    have h0 := hk.early hst
    have hx : Ov.recv ≠ p.ov := by
      -- nothing is received before the session is connected
      cases p <;> simp at hp h0 ⊢
    exact frame hst (by simp) (by simp [hx]) (by simp)
  | dequeue hops =>
    rename_i x ok zero _
    have htype : (v.conn.ov .recv).ioType = .kAccept := by
      refine hk.accept hst ?_
      cases x <;> simp at hpos hops ⊢ <;> omega
    simpa using htype
  | _ => exact frame hst (by simp) (by simp) (by simp)

theorem recv_step (h : SeatStep w v a is is' v') (hk : v.Waits (is + M)) (hf : v.Flight (is + M))
    (hb : Base w v (is + M)) (hm : v.Marked (is + M)) :
    v'.cell.state = 2 → 0 < (v'.conn.ov .recv).ops → (v'.conn.ov .recv).ioType = .kRecv := by
  intro hst hpos
  have hr := hf.recv_once
  have frame : v.cell.state = 2 → (v'.conn.ov .recv).ioType = (v.conn.ov .recv).ioType →
      (v'.conn.ov .recv).ops ≤ (v.conn.ov .recv).ops → (v'.conn.ov .recv).ioType = .kRecv := by
    intro hst htype hops
    rw [htype]
    exact hk.recv hst (hpos.trans_le hops)
  cases h with
  | pop | push | setState => simp at hst
  | connectSession =>
    simp at hr hpos
    omega
  | init =>
    simp [Conn.init] at hr hpos
    omega
  | register hd =>
    rename_i p o
    by_cases hx : p.ov = .recv
    · have hrec : p.receives = true := by cases p <;> simp at hx ⊢
      simp [hrec] at hr
      simp at hpos
      omega
    · have hx' : Ov.recv ≠ p.ov := fun e => hx e.symm
      exact frame hst (by simp [hx']) (by simp)
  | acceptPosted =>
    -- an accept is posted for a pending session
    have hone := (hf.accepting (by simp)).1
    cases hone.symm.trans hst
  | posted hp =>
    rename_i p o _ _
    by_cases hx : .recv = p.ov
    · have hkind : p.ioType = .kRecv := by cases p <;> simp at hp hx ⊢
      simp
      exact hm .kRecv (by simp [hkind, ← hx])
    · exact frame hst (by simp) (by simp [hx])
  | dequeue =>
    rename_i x ok zero _ _
    cases x
    · exact frame hst (by simp) (by simp)
    · exact frame hst (by simp) (by simp)
    · exact frame hst (by simp) (by simp)
  | _ => exact frame hst (by simp) (by simp)

/-- **One step.** -/
theorem Waits.step (hk : v.Waits (is + M)) (h : SeatStep w v a is is' v') (hf : v.Flight (is + M))
    (hb : Base w v (is + M)) (hcov : Cover (is + M)) (hm : v.Marked (is + M))
    (hok : v.Allowed (is + M) a) : v'.Waits (is' + M) where
  early := early_step h hk hf hb hcov hok
  accept := accept_step h hk hf hb hcov hm
  recv := recv_step h hk hf hb hm

/-- The pointers are those of what is in flight. -/
theorem Kept.refs_eq (hk : v.Kept 0) (hf : v.Flight 0) (hb : Base w v 0) (x : Ov) :
    refs (v.conn.ov x).sessionPtr = (v.conn.ov x).ops :=
  le_antisymm (hk.pinned x) (hf.pinned hb x)

theorem Kept.count_eq (hk : v.Kept 0) (hf : v.Flight 0) (hb : Base w v 0) : v.count =
    refs v.entry + (v.conn.ov .recv).ops + (v.conn.ov .send).ops + (v.conn.ov .disconnect).ops := by
  have hcount := hb.tally.count_eq
  rw [held, ptrs, hk.refs_eq hf hb, hk.refs_eq hf hb, hk.refs_eq hf hb] at hcount
  simp at hcount
  omega

end Seat

namespace Engine

variable {ι : Type} {N kMaxAccept : Nat} {s : Engine ι N} {es : List (Event ι)} {w : Nat}

variable [Fintype ι] [DecidableEq ι]

end Engine

end IocpServer
