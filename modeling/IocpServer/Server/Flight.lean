import IocpServer.Server.LifeCycle

/-!
# Server — Flight

The operations of a session in flight.  A receive goes from a `Register` function to Winsock, to a
worker, to its handler and back to `Register`; so does a send; and a session accepts before it
receives.  `Seat.Flight` says that there is one receive and one send at a time, and that the pointer
of an operation in flight is set.

It is kept as long as the only callers from outside are senders, and packet tasks run on sessions
that are in use (`Seat.Allowed`).
-/

namespace IocpServer

namespace Conn

variable (c : Conn) (x : Ov)

@[simp] theorem setType_isSending (t : IoType) : (c.setType x t).isSending = c.isSending := rfl

@[simp] theorem setPtr_isSending (p : Option Nat) : (c.setPtr x p).isSending = c.isSending := rfl

@[simp] theorem queue_isSending : (c.queue x).isSending = c.isSending := rfl

@[simp] theorem deliver_isSending : (c.deliver x).isSending = c.isSending := rfl

@[simp] theorem unlock_isSending : (c.unlock x).isSending = c.isSending := rfl

@[simp] theorem setType_link (t : IoType) : (c.setType x t).link = c.link := rfl

@[simp] theorem setPtr_link (p : Option Nat) : (c.setPtr x p).link = c.link := rfl

@[simp] theorem queue_link : (c.queue x).link = c.link := rfl

@[simp] theorem deliver_link : (c.deliver x).link = c.link := rfl

@[simp] theorem unlock_link : (c.unlock x).link = c.link := rfl

end Conn

/-- A receive follows, or an accept. -/
def Purpose.receives : Purpose → Bool
  | .accept _ | .firstRecv _ | .nextRecv | .welcome _ => true
  | _ => false

namespace Instr

/-- From `Pop` to `AcceptEx`. -/
def accepts : Instr → Bool
  | .init _ | .construct _ | .enter _ | .give _ => true
  | .register _ p | .assign _ p _ | .post _ p => p.ioType == .kAccept
  | _ => false

/-- Around `recvOv_`. -/
def receives : Instr → Bool
  | .init _ | .construct _ | .enter _ | .give _ => true
  | .register _ p | .assign _ p _ | .post _ p | .sendPacket _ p => p.receives
  | .complete _ x _ _ | .handleError _ x | .failed _ x _ | .dispatch _ x _ | .dispatched _ x _ _ =>
      x == .recv
  | .handleAccept _ | .connect _ _ | .connectSession _ _ | .onRecv _ => true
  | _ => false

/-- Around `sendOv_`. -/
def sends : Instr → Bool
  | .register _ p | .assign _ p _ | .post _ p => p.ov == .send
  | .complete _ x _ _ | .handleError _ x | .failed _ x _ | .dispatch _ x _ | .dispatched _ x _ _ =>
      x == .send
  | .onSend _ => true
  | _ => false

/-- Around each `OverlappedEx`. -/
def around : Ov → Instr → Bool
  | .recv => receives
  | .send => sends
  | .disconnect => disconnects

/-- About to call Winsock. -/
def posting (x : Ov) : Instr → Bool
  | .post _ p => p.ov == x
  | _ => false

/-- About to load `sessionPtr_`. -/
def loads (x : Ov) : Instr → Bool
  | .complete _ y _ _ | .handleError _ y | .dispatch _ y _ => y == x
  | _ => false

/-- About to store no pointer. -/
def lacks : Instr → Bool
  | .assign _ _ none => true
  | _ => false

/-- A disconnect may follow, though no receive has failed. -/
def ends : Instr → Bool
  | .disconnect _ | .setState _ | .reset _ | .onSend _ => true
  | .register _ p | .assign _ p _ | .post _ p | .sendPacket _ p => p == .disconnect || p == .nextSend
  | .complete _ x _ _ | .handleError _ x | .failed _ x _ | .dispatch _ x _ | .dispatched _ x _ _ =>
      x != .recv
  | _ => false

/-- From the completion of a disconnect to `DisconnectSession`. -/
def ended : Instr → Bool
  | .reset _ => true
  | .complete _ x _ _ | .handleError _ x | .dispatch _ x _ | .dispatched _ x _ _ => x == .disconnect
  | _ => false

/-- A sender's, or a packet task's. -/
def lent : Instr → Bool
  | .register _ p | .assign _ p _ | .post _ p | .sendPacket _ p => p == .plain
  | .execute _ => true
  | _ => false

/-- `CreateSession` is about to return. -/
def gives : Instr → Bool
  | .give _ => true
  | _ => false

end Instr

attribute [simp] Purpose.receives.eq_1 Purpose.receives.eq_2 Purpose.receives.eq_3
  Purpose.receives.eq_4 Purpose.receives.eq_5 Instr.accepts.eq_1 Instr.accepts.eq_2
  Instr.accepts.eq_3 Instr.accepts.eq_4 Instr.accepts.eq_5 Instr.accepts.eq_6 Instr.accepts.eq_7
  Instr.accepts.eq_8 Instr.receives.eq_1 Instr.receives.eq_2 Instr.receives.eq_3 Instr.receives.eq_4
  Instr.receives.eq_5 Instr.receives.eq_6 Instr.receives.eq_7 Instr.receives.eq_8
  Instr.receives.eq_9 Instr.receives.eq_10 Instr.receives.eq_11 Instr.receives.eq_12
  Instr.receives.eq_13 Instr.receives.eq_14 Instr.receives.eq_15 Instr.receives.eq_16
  Instr.receives.eq_17 Instr.receives.eq_18 Instr.sends.eq_1 Instr.sends.eq_2 Instr.sends.eq_3
  Instr.sends.eq_4 Instr.sends.eq_5 Instr.sends.eq_6 Instr.sends.eq_7 Instr.sends.eq_8
  Instr.sends.eq_9 Instr.sends.eq_10 Instr.around.eq_1 Instr.around.eq_2 Instr.around.eq_3
  Instr.posting.eq_1 Instr.posting.eq_2 Instr.loads.eq_1 Instr.loads.eq_2 Instr.loads.eq_3
  Instr.loads.eq_4 Instr.lacks.eq_1 Instr.lacks.eq_2 Instr.ends.eq_1 Instr.ends.eq_2 Instr.ends.eq_3
  Instr.ends.eq_4 Instr.ends.eq_5 Instr.ends.eq_6 Instr.ends.eq_7 Instr.ends.eq_8 Instr.ends.eq_9
  Instr.ends.eq_10 Instr.ends.eq_11 Instr.ends.eq_12 Instr.ends.eq_13 Instr.ends.eq_14
  Instr.ended.eq_1 Instr.ended.eq_2 Instr.ended.eq_3 Instr.ended.eq_4 Instr.ended.eq_5
  Instr.ended.eq_6 Instr.lent.eq_1 Instr.lent.eq_2 Instr.lent.eq_3 Instr.lent.eq_4 Instr.lent.eq_5
  Instr.lent.eq_6 Instr.gives.eq_1 Instr.gives.eq_2

namespace Instr

/-- What is not listed here is no operation. -/
theorem still {i : Instr} (hn : i.needs = false) (hp : i.pays = false) (hl : i.lent = false)
    (hx : ∀ x, i.loads x = false) (hg : i.gives = false) :
    i.sends = false ∧ i.ends = false ∧ i.lacks = false ∧ (∀ x, i.posting x = false) ∧
      i.receives = i.creates := by
  cases i with
  | register w p | post w p | sendPacket w p => cases p <;> simp_all [needs]
  | assign w p session => cases p <;> simp_all [needs]
  | complete w x _ _ | handleError w x | dispatch w x _ => simpa using hx x
  | _ => simp_all [needs]

theorem accepts_le (C : Multiset Instr) : num accepts C ≤ num receives C :=
  num_le (fun i hi => by
    cases i with
    | register w p | post w p | assign w p _ => cases p <;> simp_all
    | _ => simp_all) C

theorem ended_le (C : Multiset Instr) : num ended C ≤ num ends C :=
  num_le (fun i hi => by cases i <;> simp_all) C

theorem creates_le_receives (C : Multiset Instr) : num creates C ≤ num receives C :=
  num_le (fun i hi => by cases i <;> simp_all) C

theorem gives_le (C : Multiset Instr) : num gives C + num creates C ≤ num receives C := by
  induction C using Multiset.induction_on with
  | empty => exact Nat.le_refl _
  | cons i C ih =>
      rw [num_cons, num_cons, num_cons]
      cases i <;> simp at ih ⊢ <;> omega

/-- What uses an `OverlappedEx` is around it. -/
theorem uses_le (x : Ov) (C : Multiset Instr) :
    num (loads x) C + num (posting x) C ≤ num (around x) C := by
  induction C using Multiset.induction_on with
  | empty => exact Nat.le_refl _
  | cons i C ih =>
      rw [num_cons, num_cons, num_cons]
      cases i with
      | post w p => cases x <;> cases p <;> simp at ih ⊢ <;> omega
      | _ => cases x <;> simp at ih ⊢ <;> (try split) <;> omega

end Instr

theorem receives_after (w : Nat) (p : Purpose) (b : Bool) :
    (p.after w b).countP Instr.receives + (if Ov.recv = p.ov then 1 else 0) ≤
      if p.receives = true then 1 else 0 := by
  cases p with
  | welcome k | firstRecv k => cases k <;> cases b <;> simp [Purpose.after]
  | _ => cases b <;> simp [Purpose.after]

/-- What follows ends the session only when it was to receive, or was sent by `OnSend`. -/
theorem ends_after (w : Nat) {p : Purpose} (b : Bool) (hr : p.receives = false)
    (hn : p ≠ .nextSend) : (p.after w b).countP Instr.ends = 0 := by
  cases p with
  | welcome | firstRecv | nextRecv => cases hr
  | nextSend => exact absurd rfl hn
  | _ => cases b <;> simp [Purpose.after]

theorem Handler.receives {w : Nat} {zero : Bool} {t : IoType} {i : Instr} (h : Handler w zero t i)
    (hi : i.receives = true) : t = .kAccept ∨ t = .kRecv := by
  cases h <;> simp_all

theorem Handler.sends {w : Nat} {zero : Bool} {t : IoType} {i : Instr} (h : Handler w zero t i)
    (hi : i.sends = true) : t = .kSend := by
  cases h <;> simp_all

namespace Seat

variable {w : Nat} {v v' : Seat} {a : Act} {is is' : List Instr} {M : Multiset Instr}

/-- The callers from outside are senders, a packet task starts on a session in use, and no slot is
pushed under one. -/
def Allowed (v : Seat) (C : Multiset Instr) : Act → Prop
  | .lookup call => call = .send
  | .task _ => v.cell.state ≠ 0 ∧ num Instr.creates C = 0
  | .run (.push _) _ => num Instr.lent C = 0
  | _ => True

/-- **The operations of a session.** -/
structure Flight (v : Seat) (C : Multiset Instr) : Prop where
  recv_once : (v.conn.ov .recv).ops + num Instr.receives C ≤ 1
  send_once : (v.conn.ov .send).ops + num Instr.sends C ≤ v.conn.isSending.toNat
  recv_type : (v.conn.ov .recv).ioType ≠ .kSend
  send_type : (v.conn.ov .send).ioType ≠ .kAccept ∧ (v.conn.ov .send).ioType ≠ .kRecv
  pins : ∀ x ≠ .disconnect,
    (v.conn.ov x).ops + num (Instr.loads x) C ≤ refs (v.conn.ov x).sessionPtr
  lent_use : 0 < num Instr.lent C → v.cell.state ≠ 0 ∧ num Instr.creates C = 0
  idle_closed : v.cell.state = 0 → v.conn.link = .closed
  ended_closed : 0 < num Instr.ended C + v.life.resets → v.conn.link = .closed
  lacks_closed : 0 < num Instr.lacks C → v.conn.link = .closed
  posting_closed : ∀ x ≠ .disconnect,
    refs (v.conn.ov x).sessionPtr < num (Instr.posting x) C → v.conn.link = .closed
  accepting : 0 < num Instr.accepts C →
    v.cell.state = 1 ∧ v.conn.link = .closed ∧
      (v.conn.ov .send).ops + (v.conn.ov .disconnect).ops + num Instr.ends C + v.life.resets = 0 ∧
      num Instr.lacks C = 0 ∧
      ∀ x ≠ .disconnect, num (Instr.posting x) C ≤ refs (v.conn.ov x).sessionPtr

/-- One operation on each `OverlappedEx`. -/
theorem Flight.once {C : Multiset Instr} (hf : v.Flight C) (hb : Base w v C) (x : Ov) :
    (v.conn.ov x).ops + num (Instr.around x) C ≤ 1 := by
  have h₁ := hf.recv_once
  have h₂ := hf.send_once
  have h₃ := hb.once
  have h₄ := Bool.toNat_le v.conn.isSending
  cases x with
  | recv => exact h₁
  | send => exact h₂.trans h₄
  | disconnect => exact (Nat.le_add_right _ _).trans h₃

/-- What is outstanding has its pointer. -/
theorem Flight.pinned {C : Multiset Instr} (hf : v.Flight C) (hb : Base w v C) (x : Ov) :
    (v.conn.ov x).ops ≤ refs (v.conn.ov x).sessionPtr := by
  by_cases hx : x = .disconnect
  · subst hx
    exact (Nat.le_add_right _ _).trans hb.pins
  · exact (Nat.le_add_right _ _).trans (hf.pins x hx)

/-- Before a session is created there is no operation on it. -/
theorem Flight.still {C : Multiset Instr} (hf : v.Flight C) (hb : Base w v C) (hcov : Cover C)
    (h0 : v.cell.state = 0 ∨ 0 < num Instr.creates C) :
    (∀ x, (v.conn.ov x).ops = 0) ∧ num Instr.sends C = 0 ∧ num Instr.ends C = 0 ∧
      num Instr.lacks C = 0 ∧ (∀ x, num (Instr.posting x) C = 0) ∧
      num Instr.receives C = num Instr.creates C := by
  have hheld : v.held C ≤ num Instr.enters C := by
    rcases h0 with h0 | h0
    · exact (hb.tally.free_iff.mp h0).1.le.trans (Nat.zero_le _)
    · exact (hb.creating h0).2.le
  have hle := Instr.enters_le C
  have hptr : ∀ x, refs (v.conn.ov x).sessionPtr = 0 := by
    intro x
    have := v.conn.ptr_le_ptrs x
    rw [held] at hheld
    omega
  have hops : ∀ x, (v.conn.ov x).ops = 0 ∧ num (Instr.loads x) C = 0 := by
    intro x
    have hx := hptr x
    cases x with
    | disconnect =>
      obtain ⟨h₁, h₂⟩ := hb.quiet hcov hheld
      have := Instr.uses_le .disconnect C
      simp only [Instr.around] at this
      omega
    | recv =>
      have := hf.pins .recv (by decide)
      omega
    | send =>
      have := hf.pins .send (by decide)
      omega
  have hlent : num Instr.lent C = 0 := by
    by_contra h
    have := hf.lent_use (Nat.pos_of_ne_zero h)
    omega
  have hpays : num Instr.pays C = 0 := by
    have := Engine.pays_le C
    rw [held] at hheld
    omega
  have hgives : num Instr.gives C = 0 := by
    by_contra h
    have hpos : 0 < num Instr.accepts C :=
      (Nat.pos_of_ne_zero h).trans_le (num_le (fun i hi => by cases i <;> simp_all) C)
    have hst := (hf.accepting hpos).1
    have := Instr.gives_le C
    have := hf.recv_once
    omega
  have hi : ∀ i ∈ C, i.sends = false ∧ i.ends = false ∧ i.lacks = false ∧
      (∀ x, i.posting x = false) ∧ i.receives = i.creates := by
    intro i hi
    refine Instr.still ?_ (num_eq_zero.mp hpays i hi) (num_eq_zero.mp hlent i hi)
      (fun x => num_eq_zero.mp (hops x).2 i hi) (num_eq_zero.mp hgives i hi)
    by_contra hn
    have := hcov i hi (by simpa using hn)
    rw [held] at hheld
    omega
  exact ⟨fun x => (hops x).1, num_eq_zero.mpr fun i hm => (hi i hm).1,
    num_eq_zero.mpr fun i hm => (hi i hm).2.1, num_eq_zero.mpr fun i hm => (hi i hm).2.2.1,
    fun x => num_eq_zero.mpr fun i hm => (hi i hm).2.2.2.1 x, num_congr fun i hm => (hi i hm).2.2.2.2⟩

/-- What follows a receive or a send is around the `OverlappedEx` it was on. -/
theorem Flight.handler {C : Multiset Instr} (hf : v.Flight C) (hb : Base w v C) {x : Ov}
    {zero : Bool} {g : Nat} {i : Instr} (hi : Handler w zero (v.conn.ov x).ioType i)
    (hm : .dispatched w x g zero ∈ C) :
    (i.receives = true → x = .recv) ∧ (i.sends = true → x = .send) := by
  have hd : x = .disconnect → (v.conn.ov x).ioType = .kDisconnect := by
    rintro rfl
    have := num_pos (q := Instr.typed) hm (by simp)
    exact hb.disconnect_type (by omega)
  cases x with
  | recv => exact ⟨fun _ => rfl, fun h => absurd (hi.sends h) hf.recv_type⟩
  | send =>
    exact ⟨fun h => ((hi.receives h).elim hf.send_type.1 hf.send_type.2).elim, fun _ => rfl⟩
  | disconnect =>
    rw [hd rfl] at hi
    cases hi
    simp

theorem recv_once_step (h : SeatStep w v a is is' v') (hf : v.Flight (is + M))
    (hb : Base w v (is + M)) (hcov : Cover (is + M)) (hok : v.Allowed (is + M) a) :
    (v'.conn.ov .recv).ops + num Instr.receives (is' + M) ≤ 1 := by
  have hr := hf.recv_once
  cases h with
  | pop h0 =>
    obtain ⟨hops, -, -, -, -, hrec⟩ := hf.still hb hcov (.inl h0)
    have h0' := hops .recv
    have hc := hb.creating
    simp [h0] at hc hrec ⊢
    omega
  | init => simp [Conn.init] at hr ⊢; exact hr
  | overflow | sendFull =>
    rename_i p o _ _
    have := receives_after w p false
    simp at hr ⊢
    omega
  | posted | sendBusy =>
    rename_i p o _ _ _
    have := receives_after w p true
    simp at hr ⊢
    omega
  | notPosted =>
    rename_i p o _ _
    have := receives_after w p false
    simp [countP_last] at hr ⊢
    omega
  | connectLate =>
    rename_i k o _ _
    cases k <;> simp [Purpose.after] at hr ⊢ <;> omega
  | dispatched hi =>
    rename_i x zero g i o
    have := (hf.handler hb (g := g) hi (by simp)).1
    simp [countP_last] at hr ⊢
    by_cases e : i.receives = true
    · simp [e, this e] at hr ⊢
      omega
    · simp [e]
      omega
  | lookup =>
    obtain rfl : _ = Call.send := hok
    simp [Call.body] at hr ⊢
    exact hr
  | dequeue hpos =>
    rename_i x ok zero _
    cases x <;> simp at hr hpos ⊢ <;> omega
  | _ =>
    simp [countP_last, List.countP_cons] at hr ⊢
    omega

theorem send_once_step (h : SeatStep w v a is is' v') (hf : v.Flight (is + M))
    (hb : Base w v (is + M)) (hcov : Cover (is + M)) (hok : v.Allowed (is + M) a) :
    (v'.conn.ov .send).ops + num Instr.sends (is' + M) ≤ v'.conn.isSending.toNat := by
  have hs := hf.send_once
  cases h with
  | init =>
    obtain ⟨hops, hsends, -⟩ := hf.still hb hcov (.inr (by simp))
    have h0 := hops .send
    simp [Conn.init, h0] at hsends ⊢
    exact hsends
  | dispatched hi =>
    rename_i x zero g i o
    have := (hf.handler hb (g := g) hi (by simp)).2
    simp [countP_last] at hs ⊢
    by_cases e : i.sends = true
    · simp [e, this e] at hs ⊢
      omega
    · simp [e]
      omega
  | sendIdle hfree ho hidle =>
    rename_i p o
    have hk : p.ioType = .kSend := hb.names (.sendPacket w p) (by simp)
    simp [hidle] at hs ⊢
    split <;> omega
  | sent | sentPart =>
    have := Bool.toNat_le v.conn.isSending
    simp at hs ⊢
    omega
  | lookup =>
    obtain rfl : _ = Call.send := hok
    simp [Call.body] at hs ⊢
    exact hs
  | dequeue hpos =>
    rename_i x ok zero _
    cases x <;> simp at hs hpos ⊢ <;> omega
  | posted =>
    simp [@eq_comm _ Ov.send] at hs ⊢
    omega
  | _ =>
    simp [countP_last, List.countP_cons] at hs ⊢
    omega

theorem flight_types_step (h : SeatStep w v a is is' v') (hf : v.Flight (is + M)) :
    (v'.conn.ov .recv).ioType ≠ .kSend ∧
      (v'.conn.ov .send).ioType ≠ .kAccept ∧ (v'.conn.ov .send).ioType ≠ .kRecv := by
  have hr := hf.recv_type
  have hs := hf.send_type
  cases h with
  | init => simp [Conn.init]
  | register hd =>
    rename_i p o
    cases p <;> simp [hr, hs] at hd ⊢
  | _ => simpa using ⟨hr, hs⟩

/-- The `OverlappedEx` that a step works on is used by nothing else. -/
theorem Flight.alone {i : Instr} (hf : v.Flight (↑[i] + M))
    (hb : Base w v (↑[i] + M)) {x : Ov} (hi : i.around x = true) :
    (v.conn.ov x).ops = 0 ∧ num (Instr.loads x) M = 0 ∧ num (Instr.posting x) M = 0 := by
  have h := hf.once hb x
  have hle := Instr.uses_le x M
  simp [hi] at h
  omega

theorem flight_pins_step (h : SeatStep w v a is is' v') (hf : v.Flight (is + M))
    (hb : Base w v (is + M)) (hcov : Cover (is + M)) (hok : v.Allowed (is + M) a) :
    ∀ x ≠ .disconnect,
      (v'.conn.ov x).ops + num (Instr.loads x) (is' + M) ≤ refs (v'.conn.ov x).sessionPtr := by
  intro x hx
  have hp := hf.pins x hx
  cases h with
  | init =>
    obtain ⟨hops, -⟩ := hf.still hb hcov (.inr (by simp))
    have h0 := (hb.alone (by simp)).2.1
    have := v.conn.ptr_le_ptrs x
    simp [Conn.init] at hp ⊢
    omega
  | assign =>
    rename_i p session o
    by_cases e : x = p.ov
    · subst e
      obtain ⟨h₁, h₂, -⟩ := hf.alone hb (x := p.ov) (by cases p <;> simp)
      simp [countP_last, h₁, h₂]
    · simp [countP_last, e] at hp ⊢
      exact hp
  | acceptPosted =>
    rename_i g o _
    obtain ⟨h₁, h₂, -⟩ := hf.alone hb (x := .recv) (by simp)
    have := (hf.accepting (by simp)).2.2.2.2 .recv (by simp)
    cases x <;> simp at hp hx this ⊢ <;> omega
  | posted hk ho hl =>
    rename_i p o
    by_cases e : x = p.ov
    · subst e
      obtain ⟨h₁, h₂, -⟩ := hf.alone hb (x := p.ov) (by cases p <;> simp)
      have hc := mt (hf.posting_closed p.ov hx) (by simp [hl])
      simp [h₁, h₂] at hc ⊢
      omega
    · simp [e] at hp ⊢
      exact hp
  | notPosted =>
    rename_i p o _ _
    by_cases e : x = p.ov
    · subst e
      obtain ⟨h₁, h₂, -⟩ := hf.alone hb (x := p.ov) (by cases p <;> simp)
      simp [countP_last, h₁, h₂]
    · simp [countP_last, e] at hp ⊢
      exact hp
  | failed =>
    rename_i y g o
    by_cases e : x = y
    · subst e
      obtain ⟨h₁, h₂, -⟩ := hf.alone hb (x := x) (by cases x <;> simp at hx ⊢)
      simp [countP_last, h₁, h₂]
    · simp [countP_last, e] at hp ⊢
      exact hp
  | dispatched hi =>
    rename_i y zero g i o
    have hl := hi.count (Instr.loads x)
    by_cases e : x = y
    · subst e
      obtain ⟨h₁, h₂, -⟩ := hf.alone hb (x := x) (by cases x <;> simp)
      simp [countP_last, h₁, h₂, hl]
    · simp [countP_last, e, hl] at hp ⊢
      exact hp
  | dequeue hpos =>
    rename_i y ok zero _
    by_cases e : x = y
    · subst e
      simp at hp ⊢
      omega
    · simp [e, Ne.symm e] at hp ⊢
      exact hp
  | lookup =>
    obtain rfl : _ = Call.send := hok
    simp [Call.body] at hp ⊢
    exact hp
  | _ =>
    simp [countP_last, List.countP_cons, hx] at hp ⊢
    omega

theorem posting_closed_step (h : SeatStep w v a is is' v') (hf : v.Flight (is + M))
    (hb : Base w v (is + M)) (hcov : Cover (is + M)) (hok : v.Allowed (is + M) a) :
    ∀ x ≠ .disconnect, refs (v'.conn.ov x).sessionPtr < num (Instr.posting x) (is' + M) →
      v'.conn.link = .closed := by
  intro x hx
  have hp := hf.posting_closed x hx
  cases h with
  | init =>
    obtain ⟨-, -, -, -, hpost, -⟩ := hf.still hb hcov (.inr (by simp))
    have := hpost x
    simp [Conn.init] at this ⊢
    omega
  | assign =>
    rename_i p session o
    by_cases e : x = p.ov
    · subst e
      obtain ⟨-, -, h₃⟩ := hf.alone hb (x := p.ov) (by cases p <;> simp)
      cases session with
      | none => exact fun _ => hf.lacks_closed (by simp)
      | some g => simp [countP_last, h₃]
    · simp [countP_last, e, Ne.symm e] at hp ⊢
      exact hp
  | acceptPosted =>
    rename_i g o _
    obtain ⟨-, -, h₃⟩ := hf.alone hb (x := .recv) (by simp)
    have := (hf.accepting (by simp)).2.2.2.2 x hx
    cases x <;> simp [h₃] at hx this ⊢
    omega
  | notPosted =>
    rename_i p o _ _
    by_cases e : x = p.ov
    · subst e
      obtain ⟨-, -, h₃⟩ := hf.alone hb (x := p.ov) (by cases p <;> simp)
      simp [countP_last, h₃]
    · simp [countP_last, e, Ne.symm e] at hp ⊢
      exact hp
  | failed =>
    rename_i y g o
    by_cases e : x = y
    · subst e
      obtain ⟨-, -, h₃⟩ := hf.alone hb (x := x) (by cases x <;> simp at hx ⊢)
      simp [countP_last, h₃]
    · simp [countP_last, e] at hp ⊢
      exact hp
  | dispatched hi =>
    rename_i y zero g i o
    have hl := hi.count (Instr.posting x)
    by_cases e : x = y
    · subst e
      obtain ⟨-, -, h₃⟩ := hf.alone hb (x := x) (by cases x <;> simp)
      simp [countP_last, h₃, hl]
    · simp [countP_last, e, hl] at hp ⊢
      exact hp
  | lookup =>
    obtain rfl : _ = Call.send := hok
    simp [Call.body] at hp ⊢
    exact hp
  | accepted hl =>
    intro hlt
    rw [hp (by simpa using hlt)] at hl
    cases hl
  | disconnected => exact fun _ => rfl
  | posted | acceptFailed | disconnectPosted | disconnectFailed =>
    intro hlt
    refine hp ?_
    simp at hlt ⊢
    omega
  | _ =>
    simp [countP_last] at hp ⊢
    exact hp

theorem lent_step (h : SeatStep w v a is is' v') (hf : v.Flight (is + M))
    (hb : Base w v (is + M)) (hok : v.Allowed (is + M) a) (hl : 0 < num Instr.lent (is' + M)) :
    v'.cell.state ≠ 0 ∧ num Instr.creates (is' + M) = 0 := by
  have hu := hf.lent_use
  cases h with
  | pop h0 =>
    simp [h0] at hu hl
    omega
  | lookup he =>
    obtain rfl : _ = Call.send := hok
    have ht := hb.tally.free_iff
    have hal := hb.alone
    simp [held, he] at ht hal ⊢
    omega
  | task =>
    have hok : v.cell.state ≠ 0 ∧ _ := hok
    simpa using hok
  | execute =>
    simp at hu ⊢
    exact hu
  | push =>
    simp [Allowed] at hok hl
    omega
  | connectSession | setState =>
    refine ⟨by simp, ?_⟩
    simp at hu hl ⊢
    exact (hu hl).2
  | dispatched hi =>
    have h₁ := hi.count Instr.lent
    have h₂ := hi.count Instr.creates
    simp [countP_last, h₁, h₂] at hu hl ⊢
    exact hu hl
  | init | construct | enter =>
    simp at hu hl
    omega
  | _ =>
    simp [countP_last, List.countP_cons] at hu hl ⊢
    exact hu (by omega)

theorem ended_step (h : SeatStep w v a is is' v') (hf : v.Flight (is + M))
    (hb : Base w v (is + M)) (hcov : Cover (is + M)) (hok : v.Allowed (is + M) a)
    (he : 0 < num Instr.ended (is' + M) + v'.life.resets) : v'.conn.link = .closed := by
  have hc := hf.ended_closed
  cases h with
  | pop h0 =>
    obtain ⟨-, -, hends, -⟩ := hf.still hb hcov (.inl h0)
    have := Instr.ended_le M
    simp at this hends he
    omega
  | acceptPosted =>
    rename_i g o _
    have ha := (hf.accepting (by simp)).2.2.1
    have := Instr.ended_le (↑[Instr.post w (.accept g)] + M)
    simp at this ha he
    omega
  | accepted hl =>
    rw [hc (by simpa using he)] at hl
    cases hl
  | disconnected => rfl
  | dequeue hpos hl =>
    rename_i x ok zero
    by_cases e : x = .disconnect
    · exact hl e
    · refine hc ?_
      simp [e] at he ⊢
      exact he
  | dispatched hi =>
    rename_i x zero g i o
    have hcount := hi.count Instr.ended
    have ht := hb.type_eq (x := x)
    refine hc ?_
    simp [countP_last, hcount] at he ⊢
    split at he
    · rename_i e
      rw [if_pos (ht e)]
      omega
    · omega
  | handleDisconnectError hg ht =>
    refine hc ?_
    simp [hb.type_eq ht]
  | lookup =>
    obtain rfl : _ = Call.send := hok
    refine hc ?_
    simpa [Call.body] using he
  | _ =>
    refine hc ?_
    simp [countP_last, List.countP_cons] at he ⊢ <;> omega

theorem idle_closed_step (h : SeatStep w v a is is' v') (hf : v.Flight (is + M))
    (hb : Base w v (is + M)) (hcov : Cover (is + M)) (hlt : v.cell.state < SessionState.kCnt.toNat)
    (h0 : v'.cell.state = 0) : v'.conn.link = .closed := by
  have hi := hf.idle_closed
  cases h with
  | pop | connectSession | setState => simp at h0
  | push =>
    have hr := hb.released hcov hlt (mem_head _ _ _)
    exact hf.ended_closed (by rw [hr.reset]; omega)
  | acceptPosted =>
    have ha := (hf.accepting (by simp)).1
    simp at h0
    omega
  | accepted hl =>
    rw [hi h0] at hl
    cases hl
  | disconnected => rfl
  | _ => exact hi h0

/-- A `Register` function finds no pointer only after the disconnect. -/
theorem Flight.entry_closed {C : Multiset Instr} (hf : v.Flight C) (hb : Base w v C)
    (hst : v.cell.state ≠ 0 ∧ num Instr.creates C = 0) (he : v.entry = none) :
    v.conn.link = .closed := by
  have := hb.entered hst.1 hst.2
  rw [he, refs_none] at this
  exact hf.ended_closed (by omega)

theorem lacks_closed_step (h : SeatStep w v a is is' v') (hf : v.Flight (is + M))
    (hb : Base w v (is + M)) (hcov : Cover (is + M)) (hok : v.Allowed (is + M) a)
    (hl : 0 < num Instr.lacks (is' + M)) : v'.conn.link = .closed := by
  have hc := hf.lacks_closed
  cases h with
  | register hd =>
    rename_i p o
    cases he : v.entry with
    | some g =>
      simp [he] at hc hl ⊢
      exact hc hl
    | none =>
      cases p with
      | accept g => exact (hf.accepting (by simp)).2.1
      | plain => exact hf.entry_closed hb (hf.lent_use (by simp)) he
      | _ => exact hf.entry_closed hb (hb.in_use hcov (mem_head _ _ _) rfl) he
  | registerDisconnect =>
    cases he : v.entry with
    | some g =>
      simp [he] at hc hl ⊢
      exact hc hl
    | none => exact hf.entry_closed hb (hb.in_use hcov (mem_head _ _ _) rfl) he
  | assign =>
    rename_i p session o
    refine hc ?_
    simp [countP_last] at hl ⊢
    omega
  | acceptPosted =>
    have ha := (hf.accepting (by simp)).2.2.2.1
    simp at ha hl
    omega
  | accepted hl' =>
    rw [hc (by simpa using hl)] at hl'
    cases hl'
  | disconnected => rfl
  | dispatched hi =>
    have hcount := hi.count Instr.lacks
    refine hc ?_
    simpa [countP_last, hcount] using hl
  | lookup =>
    obtain rfl : _ = Call.send := hok
    refine hc ?_
    simpa [Call.body] using hl
  | _ =>
    refine hc ?_
    simpa [countP_last] using hl

/-- While a session accepts, nothing else receives and nothing ends it. -/
theorem Flight.apart {i : Instr} (hf : v.Flight (↑[i] + M)) (hM : 0 < num Instr.accepts M) :
    i.receives = false ∧ i.ends = false := by
  have hone := hf.recv_once
  have hends := (hf.accepting (by simp; omega)).2.2.1
  have hle := Instr.accepts_le M
  constructor
  · by_contra e
    rw [Bool.not_eq_false] at e
    simp [e] at hone
    omega
  · by_contra e
    rw [Bool.not_eq_false] at e
    simp [e] at hends

theorem accepting_step (h : SeatStep w v a is is' v') (hf : v.Flight (is + M))
    (hb : Base w v (is + M)) (hcov : Cover (is + M)) (hlt : v.cell.state < SessionState.kCnt.toNat)
    (hok : v.Allowed (is + M) a) (hc : 0 < num Instr.accepts (is' + M)) :
    v'.cell.state = 1 ∧ v'.conn.link = .closed ∧
      (v'.conn.ov .send).ops + (v'.conn.ov .disconnect).ops + num Instr.ends (is' + M) +
        v'.life.resets = 0 ∧
      num Instr.lacks (is' + M) = 0 ∧
      ∀ x ≠ .disconnect, num (Instr.posting x) (is' + M) ≤ refs (v'.conn.ov x).sessionPtr := by
  have ha := hf.accepting
  have hone := hf.recv_once
  have hle := Instr.accepts_le M
  cases h with
  | pop h0 =>
    obtain ⟨hops, -, hends, hlacks, hpost, -⟩ := hf.still hb hcov (.inl h0)
    refine ⟨rfl, hf.idle_closed h0, ?_, ?_, fun x _ => ?_⟩
    · have h₁ := hops .send
      have h₂ := hops .disconnect
      simp at hends ⊢
      omega
    · simpa using hlacks
    · have := hpost x
      simp at this ⊢
      omega
  | init =>
    obtain ⟨h₁, h₂, h₃, h₄, -⟩ := ha (by simp)
    obtain ⟨-, -, -, -, hpost, -⟩ := hf.still hb hcov (.inr (by simp))
    refine ⟨h₁, h₂, by simpa [Conn.init] using h₃, by simpa using h₄, fun x _ => ?_⟩
    have := hpost x
    simp at this ⊢
    omega
  | construct | enter | give =>
    obtain ⟨h₁, h₂, h₃, h₄, h₅⟩ := ha (by simp)
    refine ⟨h₁, h₂, by simpa using h₃, by simpa using h₄, fun x hx => ?_⟩
    simpa using h₅ x hx
  | push =>
    have hst := (hb.released hcov hlt (mem_head _ _ _)).state
    rw [(ha (by simpa using hc)).1] at hst
    cases hst
  | register hd =>
    rename_i p o
    obtain ⟨h₁, h₂, h₃, h₄, h₅⟩ := ha (by simpa using hc)
    -- the session is in use, and not disconnected yet
    have hcr : num Instr.creates (↑[Instr.register w p] + M) = 0 := by
      cases p with
      | accept g =>
        have := Instr.creates_le_receives M
        simp at hone ⊢
        omega
      | plain => exact (hf.lent_use (by simp)).2
      | _ => exact (hb.in_use hcov (mem_head _ _ _) rfl).2
    obtain ⟨g, hg⟩ : ∃ g, v.entry = some g := by
      have hent := hb.entered (by omega) hcr
      refine Option.ne_none_iff_exists'.mp fun e => ?_
      rw [e, refs_none] at hent
      omega
    refine ⟨h₁, h₂, by simpa using h₃, by simpa [hg] using h₄, fun x hx => ?_⟩
    simpa using h₅ x hx
  | assign =>
    rename_i p session o
    obtain ⟨h₁, h₂, h₃, h₄, h₅⟩ := ha (by simp [countP_last] at hc ⊢; omega)
    obtain ⟨-, -, halone⟩ := hf.alone hb (x := p.ov) (by cases p <;> simp)
    cases session with
    | none => simp at h₄
    | some g =>
      refine ⟨h₁, h₂, ?_, by simpa [countP_last] using h₄, fun x hx => ?_⟩
      · simp [countP_last] at h₃ ⊢
        exact ⟨⟨h₃.1.1, h₃.1.2.2, h₃.1.2.1⟩, h₃.2⟩
      have := h₅ x hx
      by_cases e : x = p.ov
      · subst e
        simp [countP_last, halone]
      · simpa [countP_last, e, Ne.symm e] using this
  | posted hk ho hl =>
    rename_i p o
    have hM : 0 < num Instr.accepts M := by simpa using hc
    have hcl := (ha (by simp; omega)).2.1
    rw [hl] at hcl
    cases hcl
  | notPosted hk =>
    rename_i p o _
    have hM : 0 < num Instr.accepts M := by simpa [countP_last] using hc
    obtain ⟨h₁, h₂, h₃, h₄, h₅⟩ := ha (by simp; omega)
    obtain ⟨-, -, halone⟩ := hf.alone hb (x := p.ov) (by cases p <;> simp)
    obtain ⟨hr, he⟩ := hf.apart hM
    have hends := ends_after w false hr (by simp at he; exact he.2)
    refine ⟨h₁, h₂, ?_, by simpa [countP_last] using h₄, fun x hx => ?_⟩
    · simp [countP_last, hends] at h₃ ⊢
      omega
    · have := h₅ x hx
      by_cases e : x = p.ov
      · subst e
        simp [countP_last, halone]
      · simpa [countP_last, e, Ne.symm e] using this
  | overflow hk =>
    rename_i p o _
    cases p <;> simp at hk hone hc <;> omega
  | sendFull | sendBusy =>
    have hM : 0 < num Instr.accepts M := by simpa using hc
    obtain ⟨h₁, h₂, h₃, h₄, h₅⟩ := ha (by simp; omega)
    obtain ⟨hr, he⟩ := hf.apart hM
    have hends := fun b => ends_after w b hr (by simp at he; exact he.2)
    refine ⟨h₁, h₂, ?_, by simpa using h₄, fun x hx => by simpa using h₅ x hx⟩
    simp [hends] at h₃ ⊢
    omega
  | sendIdle =>
    rename_i p o _ _ _
    have hk : p.ioType = .kSend := hb.names (.sendPacket w p) (by simp)
    obtain ⟨h₁, h₂, h₃, h₄, h₅⟩ := ha (by simpa [hk] using hc)
    refine ⟨h₁, h₂, by simpa using h₃, by simpa using h₄, fun x hx => ?_⟩
    simpa using h₅ x hx
  | complete | completeError | handleError | handleDisconnectError | failed | dispatch =>
    obtain ⟨hr, he⟩ := hf.apart (M := M) (by simpa [countP_last] using hc)
    simp at hr he
    exact absurd he hr
  | dispatched hi =>
    have := hi.count Instr.accepts
    obtain ⟨hr, he⟩ := hf.apart (M := M) (by simpa [countP_last, this] using hc)
    simp at hr he
    exact absurd he hr
  | lookup =>
    obtain rfl : _ = Call.send := hok
    obtain ⟨h₁, h₂, h₃, h₄, h₅⟩ := ha (by simpa [Call.body] using hc)
    refine ⟨h₁, h₂, by simpa [Call.body] using h₃, by simpa [Call.body] using h₄, fun x hx => ?_⟩
    simpa [Call.body] using h₅ x hx
  | accepted hl =>
    have := (ha (by simpa using hc)).2.1
    rw [hl] at this
    cases this
  | disconnected ho =>
    have := (ha (by simpa using hc)).2.2.1
    omega
  | dequeue ho =>
    rename_i x ok zero _
    obtain ⟨h₁, h₂, h₃, h₄, h₅⟩ := ha (by simpa using hc)
    cases x <;> simp at hone hc <;> omega
  | acceptPosted | acceptFailed | giveNone | handleAccept | notAccepted | connect | connectLate
  | connectSession | onRecv | received =>
    have := (hf.apart (M := M) (by simpa using hc)).1
    simp at this
  | registerDisconnect | disconnectPosted | disconnectFailed | sent | sentPart | disconnect
  | disconnectLate | setState | reset =>
    have := (hf.apart (M := M) (by simpa [countP_last] using hc)).2
    simp at this
  | _ =>
    obtain ⟨h₁, h₂, h₃, h₄, h₅⟩ := ha (by simpa [countP_last] using hc)
    refine ⟨h₁, h₂, by simpa [countP_last] using h₃, by simpa [countP_last] using h₄, fun x hx => ?_⟩
    simpa [countP_last] using h₅ x hx

/-- **The operations of a session stay in order**, whatever happens to the slot. -/
theorem Flight.step (hf : v.Flight (is + M)) (hb : Base w v (is + M)) (h : SeatStep w v a is is' v')
    (hcov : Cover (is + M)) (hlt : v.cell.state < SessionState.kCnt.toNat)
    (hok : v.Allowed (is + M) a) : v'.Flight (is' + M) where
  recv_once := recv_once_step h hf hb hcov hok
  send_once := send_once_step h hf hb hcov hok
  recv_type := (flight_types_step h hf).1
  send_type := (flight_types_step h hf).2
  pins := flight_pins_step h hf hb hcov hok
  lent_use := lent_step h hf hb hok
  idle_closed := idle_closed_step h hf hb hcov hlt
  ended_closed := ended_step h hf hb hcov hok
  lacks_closed := lacks_closed_step h hf hb hcov hok
  posting_closed := posting_closed_step h hf hb hcov hok
  accepting := accepting_step h hf hb hcov hlt hok

/-- A slot that has not been used. -/
theorem fresh_flight : fresh.Flight 0 := by
  refine ⟨?_, ?_, ?_, ?_, fun x _ => ?_, ?_, fun _ => rfl, ?_, ?_, fun x _ => ?_, ?_⟩ <;>
    simp [fresh, Conn.fresh]

end Seat

end IocpServer
