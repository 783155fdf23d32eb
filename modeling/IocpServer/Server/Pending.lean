import IocpServer.Server.Accepts

/-!
# Server — Pending

The counter of the accepts that are pending.  `RegisterAccept` compares the `BOOL` of `AcceptEx` with
`SOCKET_ERROR`, so that it takes every accept for posted, and `PostAccept` never rolls one back.

* `Seat.pend`: the accepts of a session that are outstanding or not counted down yet.
* `pendingAccepts_exact`: as long as no `AcceptEx` fails, `pendingAccepts_` is the number of sessions
  with such an accept and of threads that are about to post one, or to roll back.
-/

namespace IocpServer

namespace Instr

/-- Between the compare-exchange of `PostAccept` and `AcceptEx`, or the roll-back. -/
def decides : Instr → Bool
  | .acquire | .rollback | .init _ | .construct _ | .enter _ | .give _ => true
  | .register _ p | .assign _ p _ | .post _ p => p.ioType == .kAccept
  | _ => false

/-- A completion of `recvOv_` has been taken from the port. -/
def arrives : Instr → Bool
  | .complete _ x _ _ => x == .recv
  | _ => false

def countsDown : Instr → Bool
  | .countDown _ => true
  | _ => false

/-- What follows `DecrementPendingAccepts`. -/
def follows : Instr → Bool
  | .handleError _ x | .dispatch _ x _ => x == .recv
  | _ => false

/-- `AcceptEx` is called. -/
def callsAcceptEx : Instr → Bool
  | .post _ (.accept _) => true
  | _ => false

/-- Comes first in the code of a thread. -/
def leads (i : Instr) : Bool := i.decides || i.countsDown

/-- `recvOv_.ioType_` has been set to `t`. -/
def marked (t : IoType) : Instr → Bool
  | .assign _ p _ | .post _ p => p.ov == .recv && p.ioType == t
  | _ => false

end Instr

attribute [simp] Instr.decides.eq_1 Instr.decides.eq_2 Instr.decides.eq_3 Instr.decides.eq_4
  Instr.decides.eq_5 Instr.decides.eq_6 Instr.decides.eq_7 Instr.decides.eq_8 Instr.decides.eq_9
  Instr.decides.eq_10 Instr.arrives.eq_1 Instr.arrives.eq_2 Instr.countsDown.eq_1
  Instr.countsDown.eq_2 Instr.follows.eq_1 Instr.follows.eq_2 Instr.follows.eq_3
  Instr.marked.eq_1 Instr.marked.eq_2 Instr.marked.eq_3

theorem Instr.arrives_le (C : Multiset Instr) : num arrives C + num follows C ≤ num receives C := by
  induction C using Multiset.induction_on with
  | empty => exact Nat.le_refl _
  | cons i C ih =>
      rw [num_cons, num_cons, num_cons]
      cases i <;> simp at ih ⊢ <;> omega

theorem Instr.marked_le (t : IoType) (C : Multiset Instr) : num (marked t) C ≤ num receives C :=
  num_le (fun i hi => by
    cases i with
    | assign w p _ | post w p => cases p <;> simp_all
    | _ => simp_all) C

namespace Seat

variable {w : Nat} {v v' : Seat} {a : Act} {is is' : List Instr} {M : Multiset Instr}

/-- The accepts of a session that are outstanding, or not counted down yet. -/
def pend (v : Seat) (C : Multiset Instr) : Nat :=
  (if (v.conn.ov .recv).ioType = .kAccept then
    (v.conn.ov .recv).ops + num Instr.arrives C else 0) + num Instr.countsDown C

/-- The mark of `recvOv_` is that of the operation that is going to be posted. -/
def Marked (v : Seat) (C : Multiset Instr) : Prop :=
  ∀ t, 0 < num (Instr.marked t) C → (v.conn.ov .recv).ioType = t

/-- No `AcceptEx` fails. -/
def Posts : Act → Prop
  | .run i o => i.callsAcceptEx = true → o.ok = true ∨ o.pending = true
  | _ => True

/-- `Acquire` has been called for it. -/
def started : Act → Nat
  | .pop => 1
  | _ => 0

/-- `pendingAccepts_` has been decremented. -/
def counted : Act → Nat
  | .run (.countDown _) _ => 1
  | _ => 0

theorem Marked.step (hm : v.Marked (is + M)) (hf : v.Flight (is + M))
    (h : SeatStep w v a is is' v') : v'.Marked (is' + M) := by
  intro t hpos
  have hr := hf.recv_once
  have hle := Instr.marked_le t M
  have frame : (v'.conn.ov .recv).ioType = (v.conn.ov .recv).ioType →
      num (Instr.marked t) (is' + M) ≤ num (Instr.marked t) (is + M) →
      (v'.conn.ov .recv).ioType = t := fun e hnum => e.trans (hm t (hpos.trans_le hnum))
  cases h with
  | init =>
    -- nothing is going to be posted on an `OverlappedEx` that is being initialised
    simp at hr hpos
    omega
  | register hd =>
    rename_i p o
    by_cases hx : p.ov = .recv
    · by_contra hne
      have hrec : p.receives = true := by cases p <;> simp at hx ⊢
      simp [hx] at hne
      simp [hrec] at hr
      simp [hx, hne] at hpos
      omega
    · have hx' : Ov.recv ≠ p.ov := fun e => hx e.symm
      exact frame (by simp [hx']) (by simp [hx])
  | dispatched hi => exact frame (by simp) (by simp [countP_last, hi.count (Instr.marked t)])
  | assign => exact frame (by simp) (by simp [countP_last]; omega)
  | _ => exact frame (by simp) (by simp [countP_last])

/-- The accepts of a session change with the counter, or with what the thread is about to do. -/
theorem pend_step (h : SeatStep w v a is is' v') (hm : v.Marked (is + M)) (hf : v.Flight (is + M))
    (hb : Base w v (is + M)) (ha : Posts a) (hgive : is = [.give w] → v.entry ≠ none) :
    v'.pend (is' + M) + is'.countP Instr.decides + counted a =
      v.pend (is + M) + is.countP Instr.decides + started a := by
  have hr := hf.recv_once
  have hle := Instr.arrives_le M
  have frame : (v'.conn.ov .recv).ioType = (v.conn.ov .recv).ioType →
      (v'.conn.ov .recv).ops + is'.countP Instr.arrives =
        (v.conn.ov .recv).ops + is.countP Instr.arrives →
      is'.countP Instr.countsDown + is'.countP Instr.decides + counted a =
        is.countP Instr.countsDown + is.countP Instr.decides + started a →
      v'.pend (is' + M) + is'.countP Instr.decides + counted a =
        v.pend (is + M) + is.countP Instr.decides + started a := by
    intro ht hops hnum
    simp only [pend, ht, num_add, num_coe]
    split <;> omega
  cases h with
  | init =>
    simp at hr
    simp [pend, Conn.init, counted, started]
    omega
  | register hd =>
    rename_i p o
    by_cases hx : p.ov = .recv
    · have hrec : p.receives = true := by cases p <;> simp at hx ⊢
      simp [hrec] at hr
      have h0 : (v.conn.ov .recv).ops + num Instr.arrives M = 0 := by omega
      simp [pend, hx, h0, counted, started]
    · have hx' : Ov.recv ≠ p.ov := fun e => hx e.symm
      exact frame (by simp [hx']) (by simp) (by simp [counted, started])
  | giveNone he => exact absurd he (hgive rfl)
  | acceptPosted =>
    have ht := hm .kAccept (by simp)
    simp [pend, ht, counted, started]
    omega
  | acceptFailed ho => exact absurd (ha rfl) ho
  | posted hp ho hl =>
    rename_i p o
    have hnot : p.ioType ≠ .kAccept := by rcases hp with e | e <;> simp [e]
    by_cases hx : p.ov = .recv
    · have hrecv : p.ioType = .kRecv := by
        rcases hp with e | e
        · exact e
        · cases p <;> simp at e hx
      have ht := hm .kRecv (by simp [hx, hrecv])
      simp [pend, ht, hrecv, counted, started]
    · have hx' : Ov.recv ≠ p.ov := fun e => hx e.symm
      exact frame (by simp) (by simp [hx']) (by simp [hnot, counted, started])
  | complete | completeError =>
    rename_i x zero g o hg
    by_cases hacc : (v.conn.ov x).ioType = .kAccept
    · obtain rfl := hf.of_accept hb (by rintro rfl; simp) hacc
      simp [pend, accepts, hacc, counted, started]
      omega
    · by_cases hx : x = .recv
      · subst hx
        simp [pend, accepts, hacc, counted, started]
      · exact frame rfl (by simp [hx]) (by simp [accepts, hacc, counted, started])
  | dequeue ho =>
    rename_i x ok zero _
    by_cases hx : x = .recv
    · subst hx
      have hsame : (v.conn.ov .recv).ops - 1 + (num Instr.arrives M + 1) =
          (v.conn.ov .recv).ops + num Instr.arrives M := by omega
      simp [pend, hsame, counted, started]
    · have hx' : Ov.recv ≠ x := fun e => hx e.symm
      exact frame (by simp) (by simp [hx, hx']) (by simp [counted, started])
  | overflow hp => exact frame rfl (by simp) (by simp [counted, started, hp])
  | notPosted hp =>
    rename_i p o _
    have hnot : p.ioType ≠ .kAccept := by rcases hp with e | e <;> simp [e]
    exact frame (by simp) (by simp [countP_last]) (by simp [countP_last, hnot, counted, started])
  | sendIdle =>
    rename_i p o _ _ _
    have hp : p.ioType = .kSend := hb.names (.sendPacket w p) (by simp)
    exact frame rfl (by simp) (by simp [hp, counted, started])
  | dispatched hi =>
    exact frame (by simp) (by simp [countP_last, hi.count Instr.arrives])
      (by simp [countP_last, counted, started, hi.count Instr.decides, hi.count Instr.countsDown])
  | _ => exact frame (by simp) (by simp [countP_last]) (by simp [countP_last, counted, started])

/-- `CreateSession` returns what it has entered. -/
theorem Flight.given (hf : v.Flight (↑[Instr.give w] + M)) (hb : Base w v (↑[Instr.give w] + M)) :
    v.entry ≠ none := by
  obtain ⟨hst, -, hends, -⟩ := hf.accepting (by simp)
  have hgives := Instr.gives_le (↑[Instr.give w] + M)
  have hr := hf.recv_once
  simp at hgives hr
  have hentry := hb.entered (by omega) (by simp; omega)
  intro e
  rw [e, refs_none] at hentry
  omega

/-- A session has one accept at a time. -/
theorem pend_eq {C : Multiset Instr} (hf : v.Flight C)
    (hle : num Instr.countsDown C ≤ num Instr.follows C) :
    v.pend C = if (v.conn.ov .recv).ioType = .kAccept ∧
      0 < (v.conn.ov .recv).ops + num Instr.arrives C ∨ 0 < num Instr.countsDown C then 1 else 0 := by
  have h₁ := hf.recv_once
  have h₂ := Instr.arrives_le C
  rw [pend]
  by_cases ht : (v.conn.ov .recv).ioType = .kAccept
  · simp only [ht, if_true, true_and]
    split_ifs <;> omega
  · simp only [ht, if_false, false_and, false_or]
    split_ifs <;> omega

end Seat

variable {w : Nat} {v v' : Seat} {a : Act} {is is' l : List Instr} {M : Multiset Instr}

theorem countP_tail_append (q : Instr → Bool) : ∀ l r : List Instr,
    (l ++ r).tail.countP q ≤ l.tail.countP q + r.countP q
  | [], r => by
      rw [List.nil_append, List.tail_nil, List.countP_nil, Nat.zero_add]
      exact (List.tail_sublist r).countP_le
  | i :: l, r => by rw [List.cons_append, List.tail_cons, List.tail_cons, List.countP_append]

/-- While an accept is being posted, the pointer that `recvOv_` gives up is not the last. -/
theorem Seat.Base.last_accept {g : Nat} {session : Option Nat} (hb : Seat.Base w v
    (↑[Instr.assign w (.accept g) session] + M)) : v.last (v.conn.ov .recv).sessionPtr = [] := by
  cases hp : (v.conn.ov .recv).sessionPtr with
  | none => rfl
  | some k =>
    have hcount := hb.tally.count_eq
    have hptr := v.conn.ptr_le_ptrs .recv
    simp [hp, Seat.held] at hcount hptr
    have hne : v.count ≠ 1 := by omega
    simp [Seat.last, hne]

/-- Only what comes first is counted, or about to be. -/
theorem SeatStep.upfront (h : SeatStep w v a is is' v') (hb : Seat.Base w v (is + M)) :
    is'.tail.countP Instr.leads = 0 := by
  have none : is'.countP Instr.leads = 0 → is'.tail.countP Instr.leads = 0 := fun h0 =>
    Nat.le_zero.mp (h0 ▸ (List.tail_sublist is').countP_le)
  cases h with
  | pop | init | construct | enter | give | register => rfl
  | assign =>
    rename_i p session o
    by_cases hp : p.ioType = .kAccept
    · cases p with
      | accept g => simp [hb.last_accept]
      | _ => cases hp
    · exact none (by simp [countP_last, Instr.leads, hp])
  | complete | completeError =>
    rw [Seat.accepts]
    split <;> simp [Instr.leads]
  | overflow hp => exact none (by simp [Instr.leads])
  | sendIdle => rfl
  | dispatched hi =>
    rename_i x zero g i o
    have hnot : i.leads = false := by
      rw [hi.count Instr.leads rfl rfl rfl rfl]
      exact Bool.and_false _
    exact none (by simp [countP_last v _ Instr.leads fun _ => rfl, hnot])
  | _ => exact none (by simp [countP_last, Instr.leads])

namespace Engine

theorem Covered.none {n p : Instr → Bool} (hl : Covered n p l) (h0 : is.countP n = 0) :
    Covered n p (is ++ l) :=
  hl.idle (by simpa using List.countP_eq_zero.mp h0)

end Engine

open Engine in
/-- Behind `DecrementPendingAccepts` the completion is processed. -/
theorem SeatStep.paired (h : SeatStep w v a is is' v') (hf : v.Flight (is + M))
    (hb : Seat.Base w v (is + M)) (hl : Covered Instr.countsDown Instr.follows (is ++ l))
    (hi : ∀ i ∈ is', i.slot = some w) : Covered Instr.countsDown Instr.follows (is' ++ l) := by
  have hrest := Covered.tail is hl
  cases h with
  | complete | completeError =>
    rename_i x zero g o hg
    by_cases hacc : (v.conn.ov x).ioType = .kAccept
    · obtain rfl := hf.of_accept hb (by rintro rfl; simp) hacc
      simp only [Seat.accepts, if_pos hacc] at hi ⊢
      have hdrop : Covered Instr.countsDown Instr.follows ([.drop g] ++ l) := hrest.none rfl
      exact hdrop.own rfl (by simp) [_] fun i hm => hi i (List.mem_append_left _ hm)
    · exact hrest.none (by simp [Seat.accepts, hacc])
  | dispatched h => exact hrest.none (by simp [countP_last, h.count Instr.countsDown])
  | _ => exact hrest.none (by simp [countP_last])

namespace Engine

variable {ι : Type} {N kMaxAccept : Nat} {s s' : Engine ι N} {e : Event ι} {es : List (Event ι)}
  {fs fs' : List Instr}

/-- A session has an accept outstanding, or one that is not counted down yet. -/
def Outstanding [Fintype ι] (s : Engine ι N) (w : Nat) : Prop :=
  ((s.sessions w).ov .recv).ioType = .kAccept ∧
      0 < ((s.sessions w).ov .recv).ops + num Instr.arrives (s.codeAt w) ∨
    0 < num Instr.countsDown (s.codeAt w)

/-- A thread is between its compare-exchange and `AcceptEx`, or the roll-back. -/
def Undecided (s : Engine ι N) (a : ι) : Prop := ∃ i ∈ s.code a, i.decides = true

instance [Fintype ι] (s : Engine ι N) : DecidablePred s.Outstanding := fun _ =>
  inferInstanceAs (Decidable (_ ∨ _))

instance (s : Engine ι N) : DecidablePred s.Undecided := fun a =>
  inferInstanceAs (Decidable (∃ i ∈ s.code a, i.decides = true))

/-- No `AcceptEx` fails. -/
def Posts (s : Engine ι N) : Event ι → Prop
  | .run a o => ∀ i ∈ (s.code a).head?, i.callsAcceptEx = true → o.ok = true ∨ o.pending = true
  | _ => True

theorem Posts.act (he : s.Posts e) (ht : Touches s s' e w a is fs fs') : Seat.Posts a := by
  cases ht with
  | run hc =>
    refine he _ ?_
    rw [hc]
    rfl
  | _ => trivial

/-- What a step that touches a slot does besides. -/
theorem Touches.counts (ht : Touches s s' e w a is fs fs') (hgive : is = [.give w] →
      (s.view w).entry ≠ none) (hpos : 0 < is.countP Instr.countsDown → 1 ≤ s.pendingAccepts)
    (hlt : s.pendingAccepts < 2 ^ 64) :
    s'.pendingAccepts + Seat.counted a = s.pendingAccepts ∧
      fs.countP Instr.decides = Seat.started a ∧ fs'.countP Instr.leads = 0 := by
  cases ht with
  | run hc hi hp =>
    rename_i b o i rest _
    cases i with
    | countDown g =>
      have hone := hpos (by simp)
      have hsub := sub64_of_le hone hlt
      refine ⟨?_, rfl, rfl⟩
      simp only [hp, Instr.pending, hsub, Seat.counted]
      omega
    | give k =>
      obtain rfl : k = w := Option.some.inj hi
      exact ⟨hp, rfl, by simp [Instr.spawns, hgive rfl]⟩
    | post k p => cases p <;> exact ⟨hp, rfl, rfl⟩
    | execute t =>
      refine ⟨hp, rfl, ?_⟩
      simp only [Instr.spawns]
      split <;> simp [Instr.leads]
    | _ => exact ⟨hp, rfl, rfl⟩
  | _ =>
    rename_i hp _
    exact ⟨hp, rfl, rfl⟩

/-- A `cas` follows a load that has found room. -/
def Below (kMaxAccept : Nat) : Instr → Prop
  | .cas current => current < kMaxAccept
  | _ => True

theorem below_of_slot {i : Instr} (hi : i.slot = some w) : Below kMaxAccept i := by
  cases i with
  | cas => cases hi
  | _ => trivial

theorem below_spawns (v : Seat) (o : Outcome) (i : Instr) :
    ∀ j ∈ i.spawns v o, Below kMaxAccept j := by
  cases i with
  | give k =>
    simp only [Instr.spawns]
    split <;> simp [Below]
  | post k p => cases p <;> simp [Instr.spawns, Below]
  | execute t =>
    simp only [Instr.spawns]
    split <;> simp [Below]
  | _ => simp [Instr.spawns, Below]

theorem sum_moved {f g : Nat → Nat} {n : Nat} (hw : w < n) (h : ∀ x ≠ w, g x = f x) :
    ∑ x ∈ Finset.range n, g x + f w = ∑ x ∈ Finset.range n, f x + g w := by
  have hmem := Finset.mem_range.mpr hw
  have hrest : ∑ x ∈ (Finset.range n).erase w, g x = ∑ x ∈ (Finset.range n).erase w, f x :=
    Finset.sum_congr rfl fun x hx => h x (Finset.ne_of_mem_erase hx)
  rw [← Finset.add_sum_erase _ f hmem, ← Finset.add_sum_erase _ g hmem, hrest]
  omega

variable [Fintype ι]

/-- **The counter.** -/
structure Counted (kMaxAccept : Nat) (s : Engine ι N) : Prop where
  marked : ∀ w < N, (s.view w).Marked (s.codeAt w)
  upfront : ∀ a, (s.code a).tail.countP Instr.leads = 0
  paired : ∀ a, Covered Instr.countsDown Instr.follows (s.code a)
  books : s.pendingAccepts =
    ∑ w ∈ Finset.range N, (s.view w).pend (s.codeAt w) + num Instr.decides s.all
  limit : s.pendingAccepts ≤ kMaxAccept
  below : ∀ a, ∀ i ∈ s.code a, Below kMaxAccept i

theorem start_counted : (start ι N).Counted kMaxAccept := by
  have hall : (start ι N).all = 0 := Finset.sum_eq_zero fun _ _ => rfl
  have hcode : ∀ w, (start ι N).codeAt w = 0 := by
    intro w
    rw [codeAt, hall, Multiset.filter_zero]
  refine ⟨fun w _ t ht => ?_, fun _ => rfl, fun _ => trivial, ?_, Nat.zero_le _, ?_⟩
  · rw [hcode] at ht
    simp at ht
  · rw [hall, num_zero, add_zero]
    refine (Finset.sum_eq_zero fun w _ => ?_).symm
    rw [hcode]
    simp [Seat.pend, view, start, Conn.fresh]
  · intro a i hi
    cases hi

variable [DecidableEq ι]

omit [Fintype ι] in
/-- A thread that starts has nothing to decide. -/
theorem step_starts (h : s.step kMaxAccept e = some s') (he : ∀ a o, e ≠ .run a o) (b : ι) :
    s'.code b = s.code b ∨ (s'.code b).countP Instr.leads = 0 := by
  cases e with
  | run a o => exact absurd rfl (he a o)
  | accepted | disconnected =>
    simp only [step] at h
    split at h <;> cases h
    exact .inl rfl
  | task a =>
    simp only [step] at h
    split at h
    · split at h <;> cases h
      by_cases hb : b = a
      · subst hb
        exact .inr (by simp [Instr.leads])
      · exact .inl (putCode_other hb _ _)
    · cases h
  | postAccept a | call a | dequeue a =>
    simp only [step] at h
    split at h <;> cases h
    by_cases hb : b = a
    · subst hb
      exact .inr (by simp [Instr.leads])
    · exact .inl (putCode_other hb _ _)

omit [DecidableEq ι] in
theorem Counted.touched (hk : s.Counted kMaxAccept) (hlt : kMaxAccept < 2 ^ 64) (hg : s.Good)
    (hs : s.Steady) (hw : w < N) (ht : Touches s s' e w a is fs fs') (hM : s.codeAt w = is + M) :
    s'.pendingAccepts + Seat.counted a = s.pendingAccepts ∧
      fs.countP Instr.decides = Seat.started a ∧ fs'.countP Instr.leads = 0 := by
  refine ht.counts ?_ (fun hpos => ?_) (hk.limit.trans_lt hlt)
  · rintro rfl
    exact Seat.Flight.given (hM ▸ hs.flight w hw) (hM ▸ hg.base w hw)
  · have hone := Finset.single_le_sum (f := fun w => (s.view w).pend (s.codeAt w))
      (fun _ _ => Nat.zero_le _) (Finset.mem_range.mpr hw)
    have hbooks := hk.books
    simp only [Seat.pend, hM, num_add, num_coe] at hone
    simp only [Seat.pend] at hbooks
    omega

/-- What comes first in the code of a thread stays there. -/
theorem Counted.upfront_step (hN : N < 2 ^ 32) (hk : s.Counted kMaxAccept)
    (hlt : kMaxAccept < 2 ^ 64) (hg : s.Good) (hf : s.Fits) (hs : s.Steady)
    (h : s.step kMaxAccept e = some s') : ∀ a, (s'.code a).tail.countP Instr.leads = 0 := by
  by_cases he : ∃ a o, e = .run a o
  · obtain ⟨b, o, rfl⟩ := he
    obtain ⟨hm, hr'⟩ := step_moves hN hg h
    -- the rest of the thread has nothing to decide
    have frame : ∀ {gs gs' : List Instr}, gs.length = 1 → gs'.tail.countP Instr.leads = 0 →
        Replaces s s' gs gs' → ∀ a, (s'.code a).tail.countP Instr.leads = 0 := by
      intro gs gs' hone h0 hc
      refine hc.forall (P := fun l => l.tail.countP Instr.leads = 0) hk.upfront fun rest hl => ?_
      obtain ⟨i, rfl⟩ := List.length_eq_one_iff.mp hone
      have hrest : rest.countP Instr.leads = 0 := hl
      have := countP_tail_append Instr.leads gs' rest
      omega
    cases hm with
    | slot hw hst ho htch hc =>
      rename_i w act is is' fs fs'
      obtain ⟨-, ⟨M, hM, -⟩, -, -⟩ := hg.seat hN hf hw hr' hst htch hc
      have h0 := hst.upfront (M := M) (hM ▸ hg.base w hw)
      have h0' := (hk.touched hlt hg hs hw htch hM).2.2
      refine frame ?_ ?_ hc
      · cases htch <;> rfl
      · have := countP_tail_append Instr.leads is' fs'
        omega
    | idle ho ht hi hc => cases hi <;> exact frame rfl rfl hc
  · intro b
    rcases step_starts h (fun a o e => he ⟨a, o, e⟩) b with hb | hb
    · rw [hb]
      exact hk.upfront b
    · exact Nat.le_zero.mp (hb ▸ (List.tail_sublist _).countP_le)

theorem decides_of_leads {l : List Instr} (h : l.countP Instr.leads = 0) :
    l.countP Instr.decides = 0 ∧ l.countP Instr.countsDown = 0 := by
  simp only [List.countP_eq_zero, Instr.leads, Bool.or_eq_true, not_or] at h ⊢
  exact ⟨fun i hi => (h i hi).1, fun i hi => (h i hi).2⟩

omit [DecidableEq ι] in
theorem num_decides (hall : s.all = ↑fs + M) :
    num Instr.decides s.all = fs.countP Instr.decides + num Instr.decides M := by
  rw [hall, num_add, num_coe]

/-- The counter after a step of a slot. -/
theorem Counted.slot_step (hk : s.Counted kMaxAccept) (hlt : kMaxAccept < 2 ^ 64) (hg : s.Good)
    (hs : s.Steady) (hp : s.Posts e) (hw : w < N) (hst : SeatStep w (s.view w) a is is' (s'.view w))
    (ho : ∀ x ≠ w, s'.view x = s.view x) (ht : Touches s s' e w a is fs fs')
    (hc : Replaces s s' (is ++ fs) (is' ++ fs')) (hM : s.codeAt w = is + M)
    (hM' : s'.codeAt w = is' + M) (hother : ∀ x ≠ w, s'.codeAt x = s.codeAt x) :
    s'.pendingAccepts =
      ∑ w ∈ Finset.range N, (s'.view w).pend (s'.codeAt w) + num Instr.decides s'.all := by
  obtain ⟨hpend, hfs, hfs'⟩ := hk.touched hlt hg hs hw ht hM
  have hmarked := hk.marked w hw
  have hflight := hs.flight w hw
  have hb := hg.base w hw
  rw [hM] at hmarked hflight hb
  have hgive : is = [.give w] → (s.view w).entry ≠ none := by
    rintro rfl
    exact hflight.given hb
  have hseat := Seat.pend_step hst hmarked hflight hb (hp.act ht) hgive
  have hsum := sum_moved (f := fun x => (s.view x).pend (s.codeAt x))
    (g := fun x => (s'.view x).pend (s'.codeAt x)) hw fun x hx => by rw [ho x hx, hother x hx]
  obtain ⟨R, hall, hall'⟩ := hc.all
  have hnum := num_decides hall
  have hnum' := num_decides hall'
  have hbooks := hk.books
  rw [← hM, ← hM'] at hseat
  rw [List.countP_append] at hnum hnum'
  have := (decides_of_leads hfs').1
  omega

/-- The counter after a step that is about no slot. -/
theorem Idles.books (hi : Idles kMaxAccept s s' e fs fs') (hk : s.Counted kMaxAccept)
    (hlt : kMaxAccept < 2 ^ 64) (hc : Replaces s s' fs fs') :
    s'.pendingAccepts + fs.countP Instr.decides = s.pendingAccepts + fs'.countP Instr.decides ∧
      s'.pendingAccepts ≤ kMaxAccept ∧ fs'.countP Instr.countsDown = 0 ∧
      ∀ i ∈ fs', Below kMaxAccept i := by
  have hbooks := hk.books
  have hlimit := hk.limit
  obtain ⟨R, hall, -⟩ := hc.all
  have hnum := num_decides hall
  cases hi with
  | rollback hcode hp =>
    have hone : 1 ≤ s.pendingAccepts := by
      simp at hnum
      omega
    rw [sub64_of_le hone (by omega)] at hp
    refine ⟨?_, by omega, rfl, by simp⟩
    simp
    omega
  | cas hcode hp =>
    rename_i b o rest
    have hlow := hk.below b (.cas s.pendingAccepts) (hcode ▸ List.mem_cons_self)
    rw [Below] at hlow
    refine ⟨?_, by omega, rfl, by simp [Below]⟩
    simp
    omega
  | load hcode hlow hp => exact ⟨by simp [hp], by omega, rfl, by simpa [Below] using hlow⟩
  | _ =>
    rename_i hp
    exact ⟨by simp [hp], by omega, rfl, by simp [Below]⟩

/-- **A step keeps the counter.** -/
theorem Counted.step (hN : N < 2 ^ 32) (hk : s.Counted kMaxAccept) (hlt : kMaxAccept < 2 ^ 64)
    (hg : s.Good) (hf : s.Fits) (hs : s.Steady) (hp : s.Posts e)
    (h : s.step kMaxAccept e = some s') : s'.Counted kMaxAccept := by
  have hupfront := hk.upfront_step hN hlt hg hf hs h
  obtain ⟨hm, hr'⟩ := step_moves hN hg h
  cases hm with
  | slot hw hst ho htch hc =>
    rename_i w act is is' fs fs'
    obtain ⟨hslot, ⟨M, hM, hM'⟩, -, hother⟩ := hg.seat hN hf hw hr' hst htch hc
    obtain ⟨hpend, -, hfs'⟩ := hk.touched hlt hg hs hw htch hM
    obtain ⟨-, -, -, hnil⟩ := htch.slots
    have hmarked := hk.marked w hw
    have hflight := hs.flight w hw
    have hb := hg.base w hw
    rw [hM] at hmarked hflight hb
    refine ⟨fun x hx => ?_, hupfront, ?_, hk.slot_step hlt hg hs hp hw hst ho htch hc hM hM' hother,
      by have := hk.limit; omega, ?_⟩
    · by_cases e : x = w
      · subst e
        rw [hM']
        exact hmarked.step hflight hst
      · rw [ho x e, hother x e]
        exact hk.marked x hx
    · refine hc.forall hk.paired fun rest hl => ?_
      rw [List.append_assoc] at hl ⊢
      refine Covered.insert (by simpa using List.countP_eq_zero.mp (decides_of_leads hfs').2) ?_
      rcases hnil with rfl | rfl
      · exact hst.paired hflight hb (Covered.tail fs hl) hslot
      · exact hst.paired hflight hb hl hslot
    · refine hc.forall (P := fun l => ∀ i ∈ l, Below kMaxAccept i) hk.below fun rest hl i hi' => ?_
      rw [List.append_assoc, List.mem_append, List.mem_append] at hi'
      rcases hi' with hi' | hi' | hi'
      · exact below_of_slot (hslot i hi')
      · cases htch with
        | run => exact below_spawns _ _ _ i hi'
        | _ => cases hi'
      · exact hl i (List.mem_append_right _ hi')
  | idle ho ht hi hc =>
    obtain ⟨hcount, hlimit, hdown, hbelow⟩ := hi.books hk hlt hc
    have hcode := hi.codeAt hc
    refine ⟨fun x hx => ?_, hupfront, ?_, ?_, hlimit, ?_⟩
    · rw [ho x, hcode x]
      exact hk.marked x hx
    · exact hc.forall hk.paired fun rest hl => (Covered.tail _ hl).none hdown
    · obtain ⟨R, hall, hall'⟩ := hc.all
      have hnum := num_decides hall
      have hnum' := num_decides hall'
      have hbooks := hk.books
      simp only [ho, hcode]
      omega
    · refine hc.forall (P := fun l => ∀ i ∈ l, Below kMaxAccept i) hk.below fun rest hl i hi' => ?_
      rcases List.mem_append.mp hi' with hi' | hi'
      · exact hbelow i hi'
      · exact hl i (List.mem_append_right _ hi')

theorem run_counted (hN : N < 2 ^ 32) (hlt : kMaxAccept < 2 ^ 64)
    {ok : Engine ι N → Event ι → Prop} (hok : ∀ t e, ok t e → t.Fits ∧ t.Tame e ∧ t.Posts e)
    (r : Runs (step kMaxAccept) ok (start ι N) es s) :
    s.Good ∧ s.Steady ∧ s.Counted kMaxAccept := by
  refine r.invariant (I := fun s => s.Good ∧ s.Steady ∧ s.Counted kMaxAccept)
    ⟨start_good hN, start_steady, start_counted⟩ ?_
  intro t e u h hte hu
  obtain ⟨hg, hs, hk⟩ := h
  obtain ⟨hf, ht, hp⟩ := hok t e hte
  exact ⟨hg.step hN hf hu, hs.step hN hg hf ht hu, hk.step hN hlt hg hf hs hp hu⟩

omit [DecidableEq ι] in
theorem num_codeAt (q : Instr → Bool) (w : Nat) :
    num q (s.codeAt w) = ∑ a, (s.code a).countP fun i => q i && decide (i.slot = some w) := by
  rw [codeAt, num, Multiset.countP_filter, all, countP_total]
  refine Finset.sum_congr rfl fun a _ => ?_
  rw [Multiset.coe_countP]
  refine List.countP_congr fun i _ => ?_
  simp

omit [DecidableEq ι] in
/-- Behind each `DecrementPendingAccepts` a completion is processed. -/
theorem Counted.countsDown_le (hk : s.Counted kMaxAccept) (w : Nat) :
    num Instr.countsDown (s.codeAt w) ≤ num Instr.follows (s.codeAt w) := by
  rw [num_codeAt, num_codeAt]
  refine Finset.sum_le_sum fun a _ => ?_
  have hup := hk.upfront a
  have hpair := hk.paired a
  cases hc : s.code a with
  | nil => exact Nat.le_refl _
  | cons i l =>
    rw [hc] at hup hpair
    have hrest : l.countP (fun i => i.countsDown && decide (i.slot = some w)) = 0 := by
      have hno := (decides_of_leads hup).2
      simp only [List.tail_cons, List.countP_eq_zero] at hno ⊢
      intro j hj hcount
      exact hno j hj (Bool.and_eq_true_iff.mp hcount).1
    rw [List.countP_cons, hrest, Nat.zero_add]
    split
    · rename_i hi
      obtain ⟨hdown, hslot⟩ := Bool.and_eq_true_iff.mp hi
      obtain ⟨j, hj, hjs, hfollows⟩ := hpair.paid List.mem_cons_self hdown
      refine Nat.one_le_iff_ne_zero.mpr fun h0 => ?_
      have := List.countP_eq_zero.mp h0 j hj
      simp [hjs, of_decide_eq_true hslot, hfollows] at this
    · exact Nat.zero_le _

omit [DecidableEq ι] in
/-- A thread decides one accept at a time. -/
theorem Counted.decides (hk : s.Counted kMaxAccept) :
    num Instr.decides s.all = (Finset.univ.filter s.Undecided).card := by
  rw [Finset.card_filter, num, all, countP_total]
  refine Finset.sum_congr rfl fun a _ => ?_
  have hup := hk.upfront a
  rw [Multiset.coe_countP]
  cases hc : s.code a with
  | nil => simp [Undecided, hc]
  | cons i l =>
    rw [hc] at hup
    have hrest : ∀ j ∈ l, j.decides = false := by
      simpa using List.countP_eq_zero.mp (decides_of_leads hup).1
    have hcount : l.countP (fun j => decide (j.decides = true)) = 0 := by simpa using hrest
    have hiff : s.Undecided a ↔ i.decides = true := by
      simp only [Undecided, hc, List.mem_cons, exists_eq_or_imp, or_iff_left_iff_imp]
      rintro ⟨j, hj, hd⟩
      rw [hrest j hj] at hd
      cases hd
    rw [List.countP_cons, hcount]
    simp [hiff]

/-- **The counter is the number of accepts that are pending**, or about to be, in every run in which
no `AcceptEx` fails. -/
theorem pendingAccepts_exact (hN : N < 2 ^ 32) (hk : kMaxAccept < 2 ^ 64)
    (r : Runs (step kMaxAccept) (fun s e => s.Fits ∧ s.Tame e ∧ s.Posts e) (start ι N) es s) :
    s.pendingAccepts = ((Finset.range N).filter s.Outstanding).card +
        (Finset.univ.filter s.Undecided).card ∧
      s.pendingAccepts ≤ kMaxAccept := by
  obtain ⟨-, hs, hc⟩ := run_counted hN hk (fun _ _ h => h) r
  have hsum : ∑ w ∈ Finset.range N, (s.view w).pend (s.codeAt w) =
      ∑ w ∈ Finset.range N, if s.Outstanding w then 1 else 0 :=
    Finset.sum_congr rfl fun w hw =>
      Seat.pend_eq (hs.flight w (Finset.mem_range.mp hw)) (hc.countsDown_le w)
  exact ⟨by rw [hc.books, hc.decides, hsum, ← Finset.card_filter], hc.limit⟩

instance (s : Engine ι N) (e : Event ι) : Decidable (s.Posts e) :=
  match e with
  | .run a o => inferInstanceAs (Decidable
      (∀ i ∈ (s.code a).head?, i.callsAcceptEx = true → o.ok = true ∨ o.pending = true))
  | .postAccept _ | .call .. | .task _ | .accepted _ | .disconnected _ | .dequeue .. => .isTrue trivial

/-- The accept that is outstanding after `PostAccept`, and the second that waits for a slot. -/
theorem pendingAccepts_exact_posted : ∃ s : Engine (Fin 1) 1,
    Runs (step 2) (fun s e => s.Fits ∧ s.Tame e ∧ s.Posts e) (start (Fin 1) 1)
        (.postAccept 0 :: runs 0 15) s ∧
      s.pendingAccepts = 2 ∧ ((Finset.range 1).filter s.Outstanding).card = 1 ∧
      ((Finset.univ : Finset (Fin 1)).filter s.Undecided).card = 1 := by
  have hexec : (execIf (fun s e => decide (s.Fits ∧ s.Tame e ∧ s.Posts e)) (step 2)
      (start (Fin 1) 1) (.postAccept 0 :: runs 0 15)).map
        (fun s => decide (s.pendingAccepts = 2 ∧ s.Undecided 0)) = some true := by
    decide +kernel
  obtain ⟨s, hs, heq⟩ := Option.map_eq_some_iff.mp hexec
  obtain ⟨hp, hu⟩ := of_decide_eq_true heq
  have r : Runs (step 2) (fun s e => s.Fits ∧ s.Tame e ∧ s.Posts e) (start (Fin 1) 1)
      (.postAccept 0 :: runs 0 15) s :=
    Runs.of_execIf (I := fun _ => True) (fun _ _ _ h => of_decide_eq_true h)
      (fun _ _ _ _ _ _ => trivial) trivial hs
  have h := (pendingAccepts_exact (by decide) (by decide) r).1
  have hone : ((Finset.univ : Finset (Fin 1)).filter s.Undecided).card = 1 := by
    rw [Finset.filter_true_of_mem fun a _ => Subsingleton.elim a 0 ▸ hu]
    rfl
  exact ⟨s, r, hp, by omega, hone⟩

/-- **An `AcceptEx` that fails is counted for ever**: nothing is outstanding, no thread has anything
left to do, and the limit is reached. -/
theorem failed_accept_counted : ∃ s : Engine (Fin 1) 1,
    Runs (step 1) (fun s _ => s.Fits) (start (Fin 1) 1)
        (.postAccept 0 :: runs 0 9 ++ .run 0 ⟨false, false, [], []⟩ :: runs 0 3) s ∧
      s.code 0 = [] ∧ s.pendingAccepts = 1 ∧ ((Finset.range 1).filter s.Outstanding).card = 0 ∧
      ((Finset.univ : Finset (Fin 1)).filter s.Undecided).card = 0 := by
  have hexec : (execIf (fun s _ => decide s.Fits) (step 1) (start (Fin 1) 1)
      (.postAccept 0 :: runs 0 9 ++ .run 0 ⟨false, false, [], []⟩ :: runs 0 3)).map
        (fun s => decide (s.code 0 = [] ∧ s.pendingAccepts = 1 ∧
          ((Finset.range 1).filter s.Outstanding).card = 0 ∧
          ((Finset.univ : Finset (Fin 1)).filter s.Undecided).card = 0)) = some true := by
    decide +kernel
  obtain ⟨s, hs, heq⟩ := Option.map_eq_some_iff.mp hexec
  refine ⟨s, ?_, of_decide_eq_true heq⟩
  exact Runs.of_execIf (I := fun _ => True) (fun _ _ _ h => of_decide_eq_true h)
    (fun _ _ _ _ _ _ => trivial) trivial hs

end Engine

end IocpServer
