import IocpServer.Server.Pending

/-!
# Server — Locks

The critical sections of `connectCs_` and `sendCs_`.  A thread inside one is at its next instruction:
nothing is put before it, as the pointer that a `Register` function replaces in `sendOv_` is empty, so
that no session is released, and no accept posted, under `sendCs_`.

* `Seat.Locked`: `sendCs_` is taken while a thread is inside, and by one only.
* `SeatStep.leaves`: a step inside ends a critical section, or comes closer to its end.
* `Orderly`: who is inside is at its next instruction.
-/

namespace IocpServer

namespace Conn

variable (c : Conn) (x : Ov)

@[simp] theorem setType_sendCs (t : IoType) : (c.setType x t).sendCs = c.sendCs := rfl

@[simp] theorem setPtr_sendCs (p : Option Nat) : (c.setPtr x p).sendCs = c.sendCs := rfl

@[simp] theorem queue_sendCs : (c.queue x).sendCs = c.sendCs := rfl

@[simp] theorem deliver_sendCs : (c.deliver x).sendCs = c.sendCs := rfl

@[simp] theorem unlock_sendCs : (c.unlock x).sendCs = if x = .send then false else c.sendCs := rfl

end Conn

namespace Instr

/-- Inside `sendCs_`. -/
def inSendCs : Instr → Bool
  | .register _ p | .assign _ p _ | .post _ p => p.ov == .send
  | _ => false

/-- Between the store of `sendOv_.sessionPtr_` and its reset. -/
def setsSend : Instr → Bool
  | .post _ p => p.ov == .send
  | .complete _ x _ _ | .handleError _ x | .failed _ x _ | .dispatch _ x _ | .dispatched _ x _ _ =>
      x == .send
  | _ => false

/-- Inside a critical section of a session. -/
def locks (i : Instr) : Bool := i.inConnectCs || i.inSendCs

/-- How many steps of its thread the end of the critical section is away. -/
def left : Instr → Nat
  | .register _ _ => 3
  | .assign _ _ _ => 2
  | .post _ _ | .connectSession _ _ | .setState _ => 1
  | _ => 0

end Instr

attribute [simp] Instr.inSendCs.eq_1 Instr.inSendCs.eq_2 Instr.inSendCs.eq_3 Instr.inSendCs.eq_4
  Instr.setsSend.eq_1 Instr.setsSend.eq_2 Instr.setsSend.eq_3 Instr.setsSend.eq_4
  Instr.setsSend.eq_5 Instr.setsSend.eq_6 Instr.setsSend.eq_7

theorem Instr.setsSend_le (C : Multiset Instr) : num setsSend C ≤ num sends C :=
  num_le (fun i hi => by cases i <;> simp_all) C

theorem Handler.locks {w : Nat} {zero : Bool} {t : IoType} {i : Instr} (h : Handler w zero t i) :
    i.locks = false := by
  cases h <;> rfl

namespace Seat

variable {w : Nat} {v v' : Seat} {a : Act} {is is' : List Instr} {M : Multiset Instr}

/-- **The critical section of `sendCs_`.** -/
structure Locked (v : Seat) (C : Multiset Instr) : Prop where
  taken : num Instr.inSendCs C = v.conn.sendCs.toNat
  kept : refs (v.conn.ov .send).sessionPtr ≤ (v.conn.ov .send).ops + num Instr.setsSend C

theorem sendCs_step (h : SeatStep w v a is is' v') (hl : v.Locked (is + M)) (hb : Base w v (is + M)) :
    num Instr.inSendCs (is' + M) = v'.conn.sendCs.toNat := by
  have ht := hl.taken
  cases h with
  | overflow hp =>
    rename_i p o _
    have hx : p.ov ≠ .send := by cases p <;> simp at hp ⊢
    simpa [hx] using ht
  | assign =>
    rename_i p session o
    simp [countP_last] at ht ⊢
    omega
  | posted =>
    rename_i p o _ _ _
    by_cases hx : p.ov = .send
    · have := Bool.toNat_le v.conn.sendCs
      simp [hx] at ht ⊢
      omega
    · simpa [hx] using ht
  | notPosted =>
    rename_i p o _ _
    by_cases hx : p.ov = .send
    · have := Bool.toNat_le v.conn.sendCs
      simp [hx, countP_last] at ht ⊢
      omega
    · simpa [hx, countP_last] using ht
  | dispatched hi =>
    rename_i x zero g i o
    simpa [countP_last, (Bool.or_eq_false_iff.mp hi.locks).2] using ht
  | sendIdle hfree =>
    rename_i p o _ _
    have hk : p.ioType = .kSend := hb.names (.sendPacket w p) (by simp)
    have hx : p.ov = .send := by cases p <;> simp at hk ⊢
    simp [hfree] at ht
    simp [hx, ht]
  | sentPart hfree =>
    simp [hfree] at ht
    simp [ht]
  | _ =>
    simp [countP_last, Conn.init] at ht ⊢
    omega

theorem kept_step (h : SeatStep w v a is is' v') (hl : v.Locked (is + M)) (hb : Base w v (is + M)) :
    refs (v'.conn.ov .send).sessionPtr ≤
      (v'.conn.ov .send).ops + num Instr.setsSend (is' + M) := by
  have hk := hl.kept
  cases h with
  | init => simp [Conn.init]
  | assign =>
    rename_i p session o
    have := refs_le session
    by_cases e : .send = p.ov
    · simp [e]
      omega
    · have e' : p.ov ≠ .send := fun h => e h.symm
      simp [e, e', countP_last] at hk ⊢
      exact hk
  | posted =>
    rename_i p o _ _ _
    by_cases e : .send = p.ov
    · simp [e] at hk ⊢
      omega
    · have e' : p.ov ≠ .send := fun h => e h.symm
      simp [e, e'] at hk ⊢
      exact hk
  | notPosted =>
    rename_i p o _ _
    by_cases e : .send = p.ov
    · simp [e]
    · have e' : p.ov ≠ .send := fun h => e h.symm
      simp [e, e', countP_last] at hk ⊢
      omega
  | handleDisconnectError hg ht =>
    rename_i x g o
    have hx : x ≠ .send := by
      rintro rfl
      exact hb.send_type ht
    simp [hx] at hk ⊢
    exact hk
  | failed =>
    rename_i x g o
    by_cases e : .send = x
    · simp [e]
    · have e' : x ≠ .send := fun h => e h.symm
      simp [e, e', countP_last] at hk ⊢
      exact hk
  | dispatched =>
    rename_i x zero g i o _
    by_cases e : .send = x
    · simp [e]
    · have e' : x ≠ .send := fun h => e h.symm
      simp [e, e', countP_last] at hk ⊢
      omega
  | dequeue hpos =>
    rename_i x ok zero _
    cases x <;> simp at hk hpos ⊢ <;> omega
  | _ =>
    simp [countP_last, List.countP_cons] at hk ⊢
    omega

/-- **One step.** -/
theorem Locked.step (hl : v.Locked (is + M)) (h : SeatStep w v a is is' v') (hb : Base w v (is + M)) :
    v'.Locked (is' + M) where
  taken := sendCs_step h hl hb
  kept := kept_step h hl hb

theorem fresh_locked : fresh.Locked 0 := by
  refine ⟨?_, ?_⟩ <;> simp [fresh, Conn.fresh]

/-- The pointer that `RegisterSend` replaces is empty. -/
theorem Locked.last_send {p : Purpose} {session : Option Nat}
    (hl : v.Locked (↑[Instr.assign w p session] + M)) (hf : v.Flight (↑[Instr.assign w p session] + M))
    (hp : p.ov = .send) : v.last (v.conn.ov p.ov).sessionPtr = [] := by
  have hkept := hl.kept
  have honce := hf.send_once
  have hle := Instr.setsSend_le M
  have hbool := Bool.toNat_le v.conn.isSending
  simp [hp] at hkept honce
  have hnone : (v.conn.ov .send).sessionPtr = none := refs_eq_zero.mp (by omega)
  rw [hp, hnone]
  rfl

end Seat

variable {w : Nat} {v v' : Seat} {a : Act} {is is' : List Instr} {M : Multiset Instr}

/-- What is inside a critical section comes first. -/
theorem SeatStep.locks_first (h : SeatStep w v a is is' v') (hl : v.Locked (is + M))
    (hf : v.Flight (is + M)) : is'.tail.countP Instr.locks = 0 := by
  have none : is'.countP Instr.locks = 0 → is'.tail.countP Instr.locks = 0 := fun h0 =>
    Nat.le_zero.mp (h0 ▸ (List.tail_sublist is').countP_le)
  cases h with
  | assign =>
    rename_i p session o
    by_cases hp : p.ov = .send
    · rw [hl.last_send hf hp]
      rfl
    · exact none (by simp [countP_last, Instr.locks, hp])
  | give | register | registerDisconnect | connect | disconnect | sendIdle | sentPart | onRecv
  | setState => rfl
  | dispatched hi =>
    rename_i x zero g i o
    exact none (by simp [countP_last v _ Instr.locks fun _ => rfl, hi.locks])
  | _ => exact none (by simp [countP_last, Instr.locks])

/-- A step inside a critical section ends it, or comes closer to its end. -/
theorem SeatStep.leaves {j : Instr} {o : Outcome} (h : SeatStep w v (.run j o) [j] is' v')
    (hl : v.Locked (↑[j] + M)) (hf : v.Flight (↑[j] + M)) :
    (j.inConnectCs = true → v'.conn.connectCs = false) ∧
      (j.inSendCs = true → v'.conn.sendCs = false ∨
        ∃ k, is' = [k] ∧ k.slot = some w ∧ k.inSendCs = true ∧ k.left < j.left) := by
  cases h with
  | connectSession | setState => simp
  | overflow hp =>
    rename_i p _
    cases p <;> simp at hp ⊢
  | register hd =>
    rename_i p
    exact ⟨by simp, fun hp => .inr ⟨_, rfl, rfl, by simpa using hp, by simp [Instr.left]⟩⟩
  | registerDisconnect => simp
  | assign =>
    rename_i p session
    refine ⟨by simp, fun hp => .inr ⟨.post w p, ?_, rfl, by simpa using hp, by simp [Instr.left]⟩⟩
    rw [hl.last_send hf (by simpa using hp), List.nil_append]
  | posted | notPosted => exact ⟨by simp, fun hx => .inl (by simp at hx; simp [hx])⟩
  | _ => simp

namespace Engine

variable {ι : Type} {N kMaxAccept : Nat} {s s' : Engine ι N} {e : Event ι} {es : List (Event ι)}
  {fs fs' : List Instr}

theorem locks_of_slot {i : Instr} (hi : i.slot = none) : i.locks = false := by
  cases i with
  | register | assign | post | connectSession | setState => cases hi
  | _ => rfl

variable [DecidableEq ι]

/-- A thread that starts is not inside. -/
theorem step_starts_outside (h : s.step kMaxAccept e = some s') (he : ∀ a o, e ≠ .run a o) (b : ι) :
    s'.code b = s.code b ∨ (s'.code b).countP Instr.locks = 0 := by
  cases e with
  | run a o => exact absurd rfl (he a o)
  | accepted | disconnected =>
    simp only [step] at h
    split at h <;> cases h
    exact .inl rfl
  | task a =>
    simp only [step] at h
    split at h
    · split at h <;> cases h
      by_cases hb : b = a
      · subst hb
        exact .inr (by simp [Instr.locks])
      · exact .inl (putCode_other hb _ _)
    · cases h
  | postAccept a | call a | dequeue a =>
    simp only [step] at h
    split at h <;> cases h
    by_cases hb : b = a
    · subst hb
      exact .inr (by simp [Instr.locks])
    · exact .inl (putCode_other hb _ _)

variable [Fintype ι]

/-- Both critical sections of every session. -/
structure Orderly (s : Engine ι N) : Prop where
  locked : ∀ w < N, (s.view w).Locked (s.codeAt w)
  first : ∀ a, (s.code a).tail.countP Instr.locks = 0

omit [DecidableEq ι] in
theorem start_orderly : (start ι N).Orderly := by
  have hall : (start ι N).all = 0 := Finset.sum_eq_zero fun _ _ => rfl
  refine ⟨fun w _ => ?_, fun _ => rfl⟩
  rw [codeAt, hall, Multiset.filter_zero]
  exact Seat.fresh_locked

/-- Who is inside stays at its next instruction. -/
theorem Orderly.first_step (hN : N < 2 ^ 32) (hk : s.Orderly) (hg : s.Good) (hf : s.Fits)
    (hs : s.Steady) (h : s.step kMaxAccept e = some s') :
    ∀ a, (s'.code a).tail.countP Instr.locks = 0 := by
  by_cases he : ∃ a o, e = .run a o
  · obtain ⟨b, o, rfl⟩ := he
    obtain ⟨hm, hr'⟩ := step_moves hN hg h
    -- the rest of the thread is not inside
    have frame : ∀ {gs gs' : List Instr}, gs.length = 1 → gs'.tail.countP Instr.locks = 0 →
        Replaces s s' gs gs' → ∀ a, (s'.code a).tail.countP Instr.locks = 0 := by
      intro gs gs' hone h0 hc
      refine hc.forall (P := fun l => l.tail.countP Instr.locks = 0) hk.first fun rest hl => ?_
      obtain ⟨i, rfl⟩ := List.length_eq_one_iff.mp hone
      have hrest : rest.countP Instr.locks = 0 := hl
      have := countP_tail_append Instr.locks gs' rest
      omega
    cases hm with
    | slot hw hst ho htch hc =>
      rename_i w act is is' fs fs'
      obtain ⟨-, ⟨M, hM, -⟩, -, -⟩ := hg.seat hN hf hw hr' hst htch hc
      have h0 := hst.locks_first (M := M) (hM ▸ hk.locked w hw) (hM ▸ hs.flight w hw)
      have h0' : fs'.countP Instr.locks = 0 :=
        List.countP_eq_zero.mpr fun i hi => by simp [locks_of_slot (htch.slots.2.2.1 i hi).1]
      refine frame ?_ ?_ hc
      · cases htch <;> rfl
      · have := countP_tail_append Instr.locks is' fs'
        omega
    | idle ho ht hi hc => cases hi <;> exact frame rfl rfl hc
  · intro b
    rcases step_starts_outside h (fun a o e => he ⟨a, o, e⟩) b with hb | hb
    · rw [hb]
      exact hk.first b
    · exact Nat.le_zero.mp (hb ▸ (List.tail_sublist _).countP_le)

theorem Orderly.step (hN : N < 2 ^ 32) (hk : s.Orderly) (hg : s.Good) (hf : s.Fits) (hs : s.Steady)
    (h : s.step kMaxAccept e = some s') : s'.Orderly := by
  refine ⟨hg.slots hN hf h hk.locked ?_, hk.first_step hN hg hf hs h⟩
  intro w hw a is is' fs fs' M hst htch hM
  have hlocked := hk.locked w hw
  have hb := hg.base w hw
  rw [hM] at hlocked hb
  exact hlocked.step hst hb

end Engine

end IocpServer
