import IocpServer.Server.Good

/-!
# Server — Leak

No slot is lost.  A session that is not being disconnected has an accept or a receive in flight, or
a thread that is going to post one or to disconnect it; one that is being disconnected goes on to
`Session::Reset`; and an `OverlappedEx` has a pointer only from the store in its `Register` function
to the reset in `Dispatch` or `HandleError` (`Seat.Kept`).

`AcceptEx` and `DisconnectEx` return a `BOOL`, which is never `SOCKET_ERROR`, so that nothing follows
a call that fails; and nothing resets `disconnectOv_` when its operation completes with an error.
`Succeeds` rules these out; everything else may fail.

* `Kept.step`: then no step loses a session.
* `nothing_leaks`: in every run, a slot that no thread is about and that has no operation in flight is
  idle, with no reference and no pointer to it.
-/

namespace IocpServer

/-- Whoever calls it for this, posts a receive or an accept in the end, or disconnects. -/
def Purpose.carries : Purpose → Bool
  | .accept _ | .firstRecv true | .nextRecv | .welcome true => true
  | _ => false

namespace Instr

/-- On the way to a receive, an accept or a disconnect. -/
def carries : Instr → Bool
  | .init _ | .construct _ | .enter _ | .give _ => true
  | .register _ p | .assign _ p _ | .post _ p | .sendPacket _ p => p.carries
  | .complete _ x _ _ | .handleError _ x | .failed _ x _ | .dispatch _ x _ | .dispatched _ x _ _ =>
      x == .recv
  | .connect _ accepted | .connectSession _ accepted => accepted
  | .handleAccept _ | .onRecv _ | .disconnect _ | .setState _ => true
  | _ => false

/-- Between the store of `sessionPtr_` and its reset. -/
def sets (x : Ov) : Instr → Bool
  | .post _ p => x == p.ov
  | .complete _ y _ _ | .handleError _ y | .failed _ y _ | .dispatch _ y _ | .dispatched _ y _ _ =>
      x == y
  | _ => false

/-- `AcceptEx` or `DisconnectEx`. -/
def returnsBool : Instr → Bool
  | .post _ (.accept _) | .post _ .disconnect => true
  | _ => false

/-- A disconnect has completed with an error. -/
def spoils : Instr → Bool
  | .complete _ x ok _ => x == .disconnect && !ok
  | .handleError _ x => x == .disconnect
  | _ => false

end Instr

attribute [simp] Purpose.carries.eq_1 Purpose.carries.eq_2 Purpose.carries.eq_3
  Purpose.carries.eq_4 Purpose.carries.eq_5 Instr.carries.eq_1 Instr.carries.eq_2
  Instr.carries.eq_3 Instr.carries.eq_4 Instr.carries.eq_5 Instr.carries.eq_6 Instr.carries.eq_7
  Instr.carries.eq_8 Instr.carries.eq_9 Instr.carries.eq_10 Instr.carries.eq_11
  Instr.carries.eq_12 Instr.carries.eq_13 Instr.carries.eq_14 Instr.carries.eq_15
  Instr.carries.eq_16 Instr.carries.eq_17 Instr.carries.eq_18 Instr.carries.eq_19
  Instr.carries.eq_20

attribute [simp] Instr.sets.eq_1 Instr.sets.eq_2 Instr.sets.eq_3 Instr.sets.eq_4 Instr.sets.eq_5
  Instr.sets.eq_6 Instr.sets.eq_7 Instr.spoils.eq_1 Instr.spoils.eq_2 Instr.spoils.eq_3

theorem Instr.setsState_le_carries (C : Multiset Instr) :
    num Instr.setsState C ≤ num Instr.carries C :=
  num_le (fun i hi => by cases i <;> simp_all) C

theorem Instr.creates_le_carries (C : Multiset Instr) :
    num Instr.creates C ≤ num Instr.carries C :=
  num_le (fun i hi => by cases i <;> simp_all) C

/-- What cannot be posted is disconnected. -/
theorem carries_failed (w : Nat) {p : Purpose} (ha : p.ioType ≠ .kAccept) :
    (if p.carries = true then 1 else 0) ≤ (p.after w false).countP Instr.carries := by
  cases p with
  | accept => exact absurd rfl ha
  | welcome k | firstRecv k => cases k <;> simp [Purpose.after]
  | _ => simp [Purpose.after]

/-- What is sent, or posted, is followed by a receive, or is one. -/
theorem carries_posted (w : Nat) (p : Purpose) :
    (if p.carries = true then 1 else 0) ≤
      (if .recv = p.ov then 1 else 0) + (p.after w true).countP Instr.carries := by
  cases p with
  | welcome k | firstRecv k => cases k <;> simp [Purpose.after]
  | _ => simp [Purpose.after]

theorem Purpose.recv_of_send (p : Purpose) (hp : p.ioType = .kSend) : .recv ≠ p.ov := by
  cases p <;> simp at hp ⊢

theorem Handler.carries {w : Nat} {zero : Bool} {t : IoType} {i : Instr} (h : Handler w zero t i)
    (hs : t ≠ .kSend) (hd : t ≠ .kDisconnect) : i.carries = true := by
  cases h with
  | disconnect => exact absurd rfl hd
  | send => exact absurd rfl hs
  | _ => rfl

/-- No `AcceptEx` and no `DisconnectEx` fails, and no disconnect completes with an error. -/
def Act.Succeeds : Act → Prop
  | .run i o => i.returnsBool = true → o.ok = true ∨ o.pending = true
  | .dequeue x ok _ => x = .disconnect → ok = true
  | _ => True

namespace Seat

variable {w : Nat} {v v' : Seat} {a : Act} {is is' : List Instr} {M : Multiset Instr}

/-- **A slot in use is not forgotten.** -/
structure Kept (v : Seat) (C : Multiset Instr) : Prop where
  proceeds : v.cell.state = 1 ∨ v.cell.state = 2 → 1 ≤ (v.conn.ov .recv).ops + num Instr.carries C
  closing : v.cell.state = 3 →
    1 ≤ (v.conn.ov .disconnect).ops + num Instr.disconnects C + v.life.resets
  pinned : ∀ x, refs (v.conn.ov x).sessionPtr ≤ (v.conn.ov x).ops + num (Instr.sets x) C
  recv_type : (v.conn.ov .recv).ioType ≠ .kSend
  unspoilt : num Instr.spoils C = 0

theorem proceeds_step (h : SeatStep w v a is is' v') (hk : v.Kept (is + M)) (hb : Base w v (is + M))
    (hok : a.Succeeds) : v'.cell.state = 1 ∨ v'.cell.state = 2 →
      1 ≤ (v'.conn.ov .recv).ops + num Instr.carries (is' + M) := by
  have hp := hk.proceeds
  cases h with
  | push | setState => simp
  | pop | init =>
    intro _
    simp
    omega
  | connectSession =>
    rename_i k o
    have hst := hb.connecting (by simp)
    have := hp (.inl hst)
    cases k <;> simp at this ⊢ <;> omega
  | giveNone he =>
    -- an entry that is gone has been reset, and a session is reset behind its disconnect
    intro hst
    have hbf := hb.before hst
    have hset := Instr.setsState_le_carries M
    have hcr := Instr.creates_le_carries M
    have hent := hb.entered (by omega)
    simp [he] at hbf hent ⊢
    omega
  | overflow hr =>
    rename_i p o _
    have := carries_failed w (p := p) (by simp [hr])
    simp at hp ⊢
    omega
  | notPosted hr =>
    rename_i p o _
    have := carries_failed w (p := p) (by rcases hr with e | e <;> simp [e])
    simp [countP_last] at hp ⊢
    omega
  | sendFull =>
    rename_i p o _ _
    have hn : p.ioType = .kSend := hb.names (.sendPacket w p) (by simp)
    have := carries_failed w (p := p) (by simp [hn])
    simp at hp ⊢
    omega
  | posted =>
    rename_i p o _ _ _
    have := carries_posted w p
    simp at hp ⊢
    omega
  | sendBusy =>
    rename_i p o _ _ _
    have hn : p.ioType = .kSend := hb.names (.sendPacket w p) (by simp)
    have := carries_posted w p
    rw [if_neg (p.recv_of_send hn)] at this
    simp at hp ⊢
    omega
  | connectLate =>
    rename_i k o _ _
    cases k <;> simp [Purpose.after] at hp ⊢ <;> omega
  | acceptFailed ho => exact absurd (hok rfl) ho
  | handleDisconnectError hg ht =>
    rename_i x g o
    have hx : x ≠ .recv := by
      rintro rfl
      exact hb.recv_type ht
    simp [hx] at hp ⊢
    exact hp
  | dispatched hi =>
    rename_i x zero g i o
    have hcar : x = .recv → i.carries = true := by
      rintro rfl
      exact hi.carries hk.recv_type hb.recv_type
    simp [countP_last] at hp ⊢
    by_cases e : x = .recv
    · simp [hcar e]
      omega
    · simp [e] at hp ⊢
      omega
  | disconnectLate _ hst =>
    intro e
    exact absurd e hst
  | dequeue hpos =>
    rename_i x ok zero _
    cases x <;> simp at hp hpos ⊢ <;> omega
  | _ =>
    simp [countP_last, List.countP_cons] at hp ⊢
    omega

theorem closing_step (h : SeatStep w v a is is' v') (hk : v.Kept (is + M)) (hb : Base w v (is + M))
    (hok : a.Succeeds) : v'.cell.state = 3 →
      1 ≤ (v'.conn.ov .disconnect).ops + num Instr.disconnects (is' + M) + v'.life.resets := by
  have hc := hk.closing
  cases h with
  | pop | connectSession | push => simp
  | init => simpa [Conn.init] using hc
  | setState =>
    intro _
    simp
    omega
  | disconnectFailed ho => exact absurd (hok rfl) ho
  | register hd =>
    simp [hd] at hc ⊢
    exact hc
  | posted hp =>
    have hd := Purpose.ne_disconnect hp
    simp [hd.1, hd.2] at hc ⊢
    exact hc
  | notPosted hp =>
    have hd := Purpose.ne_disconnect hp
    simp [countP_last, hd.1] at hc ⊢
    exact hc
  | overflow hp =>
    have hd := Purpose.ne_disconnect (.inl hp)
    simp [hd.1] at hc ⊢
    exact hc
  | handleError hg ht =>
    rename_i x g o
    have hx : x ≠ .disconnect := by
      rintro rfl
      exact ht (hb.disconnect_type (by simp))
    simp [hx] at hc ⊢
    exact hc
  | dispatched hi =>
    rename_i x zero g i o
    have hx : x = .disconnect → i.disconnects = true := by
      rintro rfl
      rw [hb.disconnect_type (by simp)] at hi
      cases hi
      rfl
    simp [countP_last] at hc ⊢
    by_cases e : x = .disconnect
    · simp [hx e]
      omega
    · simp [e] at hc ⊢
      omega
  | dequeue hpos =>
    rename_i x ok zero _
    cases x <;> simp at hc hpos ⊢ <;> omega
  | reset =>
    intro _
    simp
    omega
  | _ =>
    simp [countP_last, List.countP_cons] at hc ⊢
    omega

theorem pinned_step (h : SeatStep w v a is is' v') (hk : v.Kept (is + M)) (hb : Base w v (is + M))
    (hok : a.Succeeds) : ∀ x, refs (v'.conn.ov x).sessionPtr ≤
      (v'.conn.ov x).ops + num (Instr.sets x) (is' + M) := by
  intro x
  have hp := hk.pinned x
  have hs := hk.unspoilt
  cases h with
  | init => simp [Conn.init]
  | acceptFailed ho => exact absurd (hok rfl) ho
  | disconnectFailed ho => exact absurd (hok rfl) ho
  | assign =>
    rename_i p session o
    have := refs_le session
    by_cases e : x = p.ov
    · simp [e]
      omega
    · simp [e, countP_last] at hp ⊢
      exact hp
  | notPosted =>
    rename_i p o _ _
    by_cases e : x = p.ov
    · simp [e]
    · simp [e, countP_last] at hp ⊢
      omega
  | handleDisconnectError hg ht =>
    -- the disconnect has completed with an error, or it was no disconnect
    rename_i y g o
    cases y with
    | recv => exact absurd ht hb.recv_type
    | send => exact absurd ht hb.send_type
    | disconnect => simp at hs
  | failed =>
    rename_i y g o
    by_cases e : x = y
    · simp [e]
    · simp [e, countP_last] at hp ⊢
      exact hp
  | dispatched =>
    rename_i y zero g i o _
    by_cases e : x = y
    · simp [e]
    · simp [e, countP_last] at hp ⊢
      omega
  | dequeue hpos =>
    rename_i y ok zero _
    by_cases e : x = y
    · subst e
      simp at hp ⊢
      omega
    · simp [e] at hp ⊢
      exact hp
  | _ =>
    simp [countP_last, List.countP_cons] at hp ⊢
    omega

theorem recv_type_step (h : SeatStep w v a is is' v') (hk : v.Kept (is + M)) :
    (v'.conn.ov .recv).ioType ≠ .kSend := by
  have hr := hk.recv_type
  cases h with
  | init => simp [Conn.init]
  | register hd =>
    rename_i p o
    cases p <;> simp [hr] at hd ⊢
  | _ => simpa using hr

theorem unspoilt_step (h : SeatStep w v a is is' v') (hk : v.Kept (is + M)) (hok : a.Succeeds) :
    num Instr.spoils (is' + M) = 0 := by
  have hs := hk.unspoilt
  cases h with
  | dispatched hi => simpa [countP_last, hi.count Instr.spoils] using hs
  | dequeue =>
    rename_i x ok zero _ _
    cases x with
    | disconnect =>
      obtain rfl : ok = true := hok rfl
      simpa using hs
    | _ => simpa using hs
  | completeError => simpa [and_comm] using hs
  | handleDisconnectError | handleError =>
    simp at hs ⊢
    exact hs.1
  | _ => simpa [countP_last] using hs

/-- **No step forgets a slot.** -/
theorem Kept.step (hk : v.Kept (is + M)) (hb : Base w v (is + M)) (h : SeatStep w v a is is' v')
    (hok : a.Succeeds) : v'.Kept (is' + M) where
  proceeds := proceeds_step h hk hb hok
  closing := closing_step h hk hb hok
  pinned := pinned_step h hk hb hok
  recv_type := recv_type_step h hk
  unspoilt := unspoilt_step h hk hok

/-- A slot that no thread is about and that nothing is in flight for is free. -/
theorem Kept.free (hk : v.Kept 0) (hb : Base w v 0) (hlt : v.cell.state < SessionState.kCnt.toNat)
    (hops : ∀ x, (v.conn.ov x).ops = 0) : v.cell.state = 0 ∧ v.count = 0 ∧ v.entry = none := by
  have hptr : ∀ x, refs (v.conn.ov x).sessionPtr = 0 := by
    intro x
    have := hk.pinned x
    rw [hops x] at this
    exact Nat.le_zero.mp this
  have hp := hk.proceeds
  have hc := hk.closing
  have hent := hb.entered
  have hf := hb.tally.free_iff
  have hcount := hb.tally.count_eq
  replace hlt : v.cell.state < 4 := hlt
  simp [hops, held, ptrs, hptr] at hp hc hent hf hcount
  have h0 : v.cell.state = 0 := by omega
  have := refs_eq_zero.mp (hf.mp h0)
  exact ⟨h0, by omega, this⟩

theorem fresh_kept : fresh.Kept 0 := by
  refine ⟨?_, ?_, fun x => ?_, ?_, ?_⟩ <;> simp [fresh, Conn.fresh]

end Seat

namespace Engine

variable {ι : Type} {N kMaxAccept : Nat} {s s' : Engine ι N} {e : Event ι} {es : List (Event ι)}
  {w : Nat} {a : Act} {is is' fs fs' : List Instr}

/-- No `AcceptEx` and no `DisconnectEx` fails, and no disconnect completes with an error. -/
def Succeeds (s : Engine ι N) : Event ι → Prop
  | .run a o => ∀ i ∈ (s.code a).head?, i.returnsBool = true → o.ok = true ∨ o.pending = true
  | .dequeue _ _ x ok _ => x = .disconnect → ok = true
  | _ => True

theorem Succeeds.act (he : s.Succeeds e) (ht : Touches s s' e w a is fs fs') : a.Succeeds := by
  cases ht with
  | run hc _ _ _ =>
    refine he _ ?_
    rw [hc]
    rfl
  | dequeue _ _ => exact he
  | _ => trivial

variable [Fintype ι] [DecidableEq ι]

/-- In every run in which they succeed no slot is forgotten. -/
theorem run_kept (hN : N < 2 ^ 32) {ok : Engine ι N → Event ι → Prop}
    (hok : ∀ t e, ok t e → t.Fits ∧ t.Succeeds e) (r : Runs (step kMaxAccept) ok (start ι N) es s) :
    s.Good ∧ ∀ w < N, (s.view w).Kept (s.codeAt w) := by
  refine r.invariant (I := fun s => s.Good ∧ ∀ w < N, (s.view w).Kept (s.codeAt w))
    ⟨start_good hN, fun w _ => ?_⟩ ?_
  · have hall : (start ι N).all = 0 := Finset.sum_eq_zero fun _ _ => rfl
    rw [codeAt, hall, Multiset.filter_zero]
    exact Seat.fresh_kept
  · intro t e u h hte hu
    obtain ⟨hg, hk⟩ := h
    obtain ⟨hf, hs⟩ := hok t e hte
    refine ⟨hg.step hN hf hu, hg.slots hN hf hu hk ?_⟩
    intro w hw a is is' fs fs' M hst htch hM
    have hkept := hk w hw
    have hb := hg.base w hw
    rw [hM] at hkept hb
    exact hkept.step hb hst (hs.act htch)

/-- **Nothing leaks.** -/
theorem nothing_leaks (hN : N < 2 ^ 32)
    (r : Runs (step kMaxAccept) (fun s e => s.Fits ∧ s.Succeeds e) (start ι N) es s) (hw : w < N) :
    ((∀ a, ∀ i ∈ s.code a, i.slot ≠ some w) → (∀ x, ((s.sessions w).ov x).ops = 0) →
      (s.view w).cell.state = SessionState.kIdle.toNat ∧ s.refCount w = 0 ∧ s.sessionPtrs w = none) ∧
    ∀ x, ((s.sessions w).ov x).ops = 0 →
      (∀ a, ∀ i ∈ s.code a, i.slot = some w → i.sets x = false) →
        ((s.sessions w).ov x).sessionPtr = none := by
  obtain ⟨hg, hk⟩ := run_kept hN (fun _ _ h => h) r
  have hkept := hk w hw
  have hb := hg.base w hw
  refine ⟨fun hnone hops => ?_, fun x hops hsets => ?_⟩
  · have hcode : s.codeAt w = 0 := by
      refine Multiset.eq_zero_of_forall_notMem fun i hi => ?_
      obtain ⟨⟨a, ha⟩, hs⟩ := mem_codeAt.mp hi
      exact hnone a i ha hs
    rw [hcode] at hkept hb
    exact hkept.free hb (hg.rep.state_lt w hw) hops
  · have hnum : num (Instr.sets x) (s.codeAt w) = 0 := by
      refine num_eq_zero.mpr fun i hi => ?_
      obtain ⟨⟨a, ha⟩, hs⟩ := mem_codeAt.mp hi
      exact hsets a i ha hs
    have hle := hkept.pinned x
    rw [hnum, show ((s.view w).conn.ov x).ops = 0 from hops] at hle
    exact refs_eq_zero.mp (Nat.le_zero.mp hle)

instance (s : Engine ι N) (e : Event ι) : Decidable (s.Succeeds e) :=
  match e with
  | .run a o => inferInstanceAs
      (Decidable (∀ i ∈ (s.code a).head?, i.returnsBool = true → o.ok = true ∨ o.pending = true))
  | .dequeue _ _ x ok _ => inferInstanceAs (Decidable (x = .disconnect → ok = true))
  | .postAccept _ | .call .. | .task _ | .accepted _ | .disconnected _ => .isTrue trivial

/-- An accept completes with an error, and the session is disconnected. -/
def refused (a : ι) : List (Event ι) :=
  .postAccept a :: runs a 13 ++ .dequeue a 0 .recv false false :: runs a 15 ++ .disconnected 0 ::
    .dequeue a 0 .disconnect true false :: runs a 7

theorem nothing_leaks_refused : ∃ s : Engine (Fin 1) 1,
    Runs (step 1) (fun s e => s.Fits ∧ s.Succeeds e) (start (Fin 1) 1) (refused 0) s ∧ s.pushed 0 = 1 ∧
      (s.view 0).cell.state = SessionState.kIdle.toNat ∧ s.refCount 0 = 0 ∧ s.sessionPtrs 0 = none := by
  have hexec : (execIf (fun s e => decide (s.Fits ∧ s.Succeeds e)) (step 1) (start (Fin 1) 1)
      (refused 0)).map (fun s => decide (s.code 0 = [.load] ∧ s.pushed 0 = 1 ∧
        ((s.sessions 0).ov .recv).ops = 0 ∧ ((s.sessions 0).ov .send).ops = 0 ∧
        ((s.sessions 0).ov .disconnect).ops = 0)) = some true := by
    decide +kernel
  obtain ⟨s, hs, heq⟩ := Option.map_eq_some_iff.mp hexec
  obtain ⟨hcode, hpushed, hrecv, hsend, hdis⟩ := of_decide_eq_true heq
  have r : Runs (step 1) (fun s e => s.Fits ∧ s.Succeeds e) (start (Fin 1) 1) (refused 0) s :=
    Runs.of_execIf (I := fun _ => True) (fun _ _ _ h => of_decide_eq_true h)
      (fun _ _ _ _ _ _ => trivial) trivial hs
  refine ⟨s, r, hpushed, (nothing_leaks (by decide) r (by decide : 0 < 1)).1 ?_ ?_⟩
  · intro a i hi
    obtain rfl := Subsingleton.elim a 0
    rw [hcode] at hi
    obtain rfl := List.mem_singleton.mp hi
    intro h
    cases h
  · intro x
    cases x
    · exact hrecv
    · exact hsend
    · exact hdis

/-- A `DisconnectEx` that fails. -/
def notDisconnected (a : ι) : List (Event ι) :=
  .postAccept a :: runs a 13 ++ .dequeue a 0 .recv false false :: runs a 12 ++
    .run a ⟨false, false, [], []⟩ :: runs a 2

/-- **A session whose `DisconnectEx` fails is never released**, and `disconnectOv_` keeps its
pointer. -/
theorem failed_disconnect_leaks : ∃ s : Engine (Fin 1) 1,
    Runs (step 1) (fun s _ => s.Fits) (start (Fin 1) 1) (notDisconnected 0) s ∧ s.code 0 = [] ∧
      (∀ x, ((s.sessions 0).ov x).ops = 0) ∧
      (s.view 0).cell.state = SessionState.kDisconnecting.toNat ∧ s.refCount 0 = 2 ∧
      s.sessionPtrs 0 = some 0 ∧ ((s.sessions 0).ov .disconnect).sessionPtr = some 0 := by
  have hexec : (execIf (fun s _ => decide s.Fits) (step 1) (start (Fin 1) 1)
      (notDisconnected 0)).map
      (fun s => decide (s.code 0 = [] ∧ (((s.sessions 0).ov .recv).ops = 0 ∧
        ((s.sessions 0).ov .send).ops = 0 ∧ ((s.sessions 0).ov .disconnect).ops = 0) ∧
        (s.view 0).cell.state = 3 ∧ s.refCount 0 = 2 ∧ s.sessionPtrs 0 = some 0 ∧
        ((s.sessions 0).ov .disconnect).sessionPtr = some 0)) = some true := by
    decide +kernel
  obtain ⟨s, hs, heq⟩ := Option.map_eq_some_iff.mp hexec
  obtain ⟨hcode, ⟨hrecv, hsend, hdis⟩, hstate, hcount, hentry, hptr⟩ := of_decide_eq_true heq
  have r : Runs (step 1) (fun s _ => s.Fits) (start (Fin 1) 1) (notDisconnected 0) s :=
    Runs.of_execIf (I := fun _ => True) (fun _ _ _ h => of_decide_eq_true h)
      (fun _ _ _ _ _ _ => trivial) trivial hs
  refine ⟨s, r, hcode, fun x => ?_, hstate, hcount, hentry, hptr⟩
  cases x
  · exact hrecv
  · exact hsend
  · exact hdis

end Engine

end IocpServer
