import IocpServer.Server.Locks
import IocpServer.Server.Tasks

/-!
# Server — Progress

No thread of the server is ever stuck.  Its next instruction has a next state, whatever Winsock and
the clients answer: every index is in range, every pointer that is followed is there, every assertion
holds; or it waits for a lock, and the thread inside has a next state.

That needs what the code does not see to: a completion taken from the port behind `SetListener`, no
session pushed or reset under its packet tasks, and handles of slots.

* `perform_total`: an instruction that waits for no lock can be executed.
* `never_stuck`: in every run.
* `lock_released`: the thread inside leaves after three of its steps at most.
-/

namespace IocpServer

namespace Engine

variable {ι : Type} {N kMaxAccept : Nat} {s s' : Engine ι N} {e : Event ι} {es : List (Event ι)}
  {o : Outcome} {i : Instr} {w : Nat} {C : Multiset Instr}

/-- The lock that the next instruction takes is taken. -/
def Blocked (s : Engine ι N) : Instr → Prop
  | .connect w _ | .disconnect w => (s.sessions w).connectCs = true
  | .sendPacket w _ | .onSend w => (s.sessions w).sendCs = true
  | _ => False

/-- A thread at the instruction `j` is inside the critical section that `i` waits for. -/
def Frees (i j : Instr) : Prop :=
  j.slot = i.slot ∧ match i with
    | .connect .. | .disconnect _ => j.inConnectCs = true
    | .sendPacket .. | .onSend _ => j.inSendCs = true
    | _ => False

/-- Nobody inside waits. -/
theorem Frees.free {j : Instr} (h : Frees i j) : ¬ s.Blocked j := by
  intro hb
  cases j with
  | connect | disconnect | sendPacket | onSend => cases i <;> simp [Frees] at h
  | _ => exact hb

/-- A receive or a send succeeds on a socket that is connected. -/
def Answers (s : Engine ι N) (o : Outcome) : Instr → Prop
  | .post w p => p.ioType = .kRecv ∨ p.ioType = .kSend → o.ok = true → (s.sessions w).link = .connected
  | _ => True

/-- The handle that is looked up is of a slot. -/
def reaches (N : Nat) : Instr → Prop
  | .lookup handle _ => slotIndex handle < N
  | _ => True

/-- So are those that callers have, and those that `Broadcast` lists. -/
def Event.Reaches (N : Nat) : Event ι → Prop
  | .call _ handle _ => slotIndex handle < N
  | .run _ o => ∀ handle ∈ o.handles, slotIndex handle < N
  | _ => True

/-- A step of the thread `b`. -/
def Event.turn [DecidableEq ι] (b : ι) : Event ι → Bool
  | .run a _ => a = b
  | _ => false

/-- What the code does not see to. -/
structure Keeps [Fintype ι] (s : Engine ι N) (e : Event ι) : Prop where
  fits : s.Fits
  tame : s.Tame e
  inTime : s.InTime e
  logs : s.LogsInTime e
  reaches : e.Reaches N

/-! ### One instruction -/

/-- A session in use knows its slot. -/
theorem own_slot (hN : N < 2 ^ 32) (hr : s.set.Rep) (hw : w < N) (hb : (s.view w).Base w C)
    (hst : (s.view w).cell.state ≠ 0) (hcr : num Instr.creates C = 0) :
    slotIndex (s.sessions w).handle = w :=
  slotIndex_of hN hr hw (hb.handle_eq hst hcr)

/-- What is about to be loaded is there. -/
theorem loaded (hf : (s.view w).Flight C) (hb : (s.view w).Base w C) {x : Ov}
    (hpos : 0 < num (Instr.loads x) C) : ∃ g, ((s.sessions w).ov x).sessionPtr = some g := by
  refine Option.ne_none_iff_exists'.mp fun hnone => ?_
  have hrefs : refs ((s.view w).conn.ov x).sessionPtr = 0 := refs_eq_zero.mpr hnone
  by_cases hx : x = .disconnect
  · subst hx
    have hle : num (Instr.loads .disconnect) C ≤ num Instr.pinned C :=
      num_le (fun i hi => by cases i <;> simp_all) C
    have := hb.pins
    omega
  · have := hf.pins x hx
    omega

theorem perform_register_total (hN : N < 2 ^ 32) (hr : s.set.Rep) (hw : w < N)
    (hb : (s.view w).Base w C) (hst : (s.view w).cell.state ≠ 0) (hcr : num Instr.creates C = 0)
    (hp : ∀ g, s.sessionPtrs w = some g → slotIndex g = w) (p : Purpose) :
    s.perform kMaxAccept o (.register w p) ≠ none := by
  have hown := own_slot hN hr hw hb hst hcr
  simp only [perform, Option.bind_eq_bind]
  split
  · simp
  · rw [getSession_eq hown hw (by exact hp)]
    simp

theorem perform_post_total (hw : w < N)
    (hp : ∀ x g, ((s.sessions w).ov x).sessionPtr = some g → slotIndex g = w) {p : Purpose}
    (ho : s.Answers o (.post w p)) : s.perform kMaxAccept o (.post w p) ≠ none := by
  cases p with
  | accept g =>
    simp only [perform]
    split <;> simp
  | disconnect =>
    simp only [perform]
    split <;> simp
  | firstRecv k | nextRecv | welcome k | plain | nextSend =>
    simp only [perform]
    split
    · rename_i hok
      rw [if_pos (ho (by simp) hok)]
      simp
    · rw [resetOv_eq (hp _) hw]
      simp

theorem perform_dispatched_total (hw : w < N) {x : Ov} {g : Nat} {zero : Bool}
    (hp : ∀ x g, ((s.sessions w).ov x).sessionPtr = some g → slotIndex g = w) :
    s.perform kMaxAccept o (.dispatched w x g zero) ≠ none := by
  simp only [perform, resetOv_eq (hp x) hw, Option.bind_eq_bind, Option.bind_some]
  split <;> simp

theorem getState_own_some (hw : w < N) (hown : slotIndex (s.sessions w).handle = w) :
    s.set.getState (s.sessions w).handle = some (s.view w).cell.state := by
  simp only [SparseSet.getState, hown, rd_of_lt hw, Option.bind_eq_bind, Option.bind_some]
  rfl

theorem perform_enters_total (hw : w < N) (hown : slotIndex (s.sessions w).handle = w)
    (hfree : (s.sessions w).connectCs = false) :
    (∀ k, s.perform kMaxAccept o (.connect w k) ≠ none) ∧
      s.perform kMaxAccept o (.disconnect w) ≠ none := by
  refine ⟨fun k => ?_, ?_⟩
  · simp only [perform, hfree, getState_own_some hw hown, Option.bind_eq_bind, Option.bind_some]
    simp only [Bool.false_eq_true, if_false]
    split <;> simp
  · simp only [perform, hfree, getState_own_some hw hown, Option.bind_eq_bind, Option.bind_some]
    simp only [Bool.false_eq_true, if_false]
    split <;> simp

theorem perform_moves_total (hN : N < 2 ^ 32) (hr : s.set.Rep) (hw : w < N)
    (hown : slotIndex (s.sessions w).handle = w) :
    (∀ k, s.perform kMaxAccept o (.connectSession w k) ≠ none) ∧
      s.perform kMaxAccept o (.setState w) ≠ none := by
  have hi : slotIndex (s.sessions w).handle < N := hown.symm ▸ hw
  refine ⟨fun k => ?_, ?_⟩
  · obtain ⟨t, ht, -⟩ := SparseSet.moveToState_spec hr hN hi
      (by decide : SessionState.kConnected.toNat < SessionState.kCnt.toNat)
    simp only [perform, ht, Option.bind_eq_bind, Option.bind_some]
    simp
  · obtain ⟨t, ht, -⟩ := SparseSet.moveToState_spec hr hN hi
      (by decide : SessionState.kDisconnecting.toNat < SessionState.kCnt.toNat)
    simp only [perform, ht, Option.bind_eq_bind, Option.bind_some]
    simp

theorem perform_acquire_total (hN : N < 2 ^ 32) (hr : s.set.Rep) :
    s.perform kMaxAccept o .acquire ≠ none := by
  rcases SparseSet.pop_spec hr hN (b := SessionState.kPending.toNat) (by decide) with
    ⟨w, set, -, -, hp, -⟩ | ⟨hp, -⟩
  all_goals
    simp only [perform, hp, Option.bind_eq_bind, Option.bind_some]
    split <;> simp

theorem perform_lookup_total (hw : w < N) {handle : Nat} {call : Call} (hi : slotIndex handle = w)
    (hp : ∀ g, s.sessionPtrs w = some g → slotIndex g = w) :
    s.perform kMaxAccept o (.lookup handle call) ≠ none := by
  simp only [perform, getSession_eq hi hw hp, Option.bind_eq_bind, Option.bind_some]
  split <;> simp

theorem perform_init_total (hw : w < N) {g : Nat} (hi : slotIndex g = w)
    (hp : ptrs (s.sessions w).ov = 0) : s.perform kMaxAccept o (.init g) ≠ none := by
  have hnone : ∀ x, ((s.sessions w).ov x).sessionPtr = none := by
    intro x
    have := (s.sessions w).ptr_le_ptrs x
    exact refs_eq_zero.mp (by omega)
  have hsend : (((s.putConn w (((s.sessions w).setPtr .recv none).setType .recv .kNone)).sessions
      w).ov .send).sessionPtr = none := by simp [hnone]
  have hdisc : (((((s.putConn w (((s.sessions w).setPtr .recv none).setType .recv .kNone)).putConn w
      ((((s.putConn w (((s.sessions w).setPtr .recv none).setType .recv .kNone)).sessions w).setPtr
        .send none).setType .send .kNone)).sessions w).ov .disconnect).sessionPtr) = none := by
    simp [hnone]
  simp only [perform, hi, initOv_none (hnone .recv), Option.bind_eq_bind, Option.bind_some]
  rw [initOv_none hsend, Option.bind_some, initOv_none hdisc, Option.bind_some, wr_of_lt hw]
  simp

theorem perform_enter_total (hw : w < N) {g : Nat} (hi : slotIndex g = w)
    (hp : ∀ g, s.sessionPtrs w = some g → slotIndex g = w) :
    s.perform kMaxAccept o (.enter g) ≠ none := by
  simp only [perform, hi, rd_of_lt hw, Option.bind_eq_bind, Option.bind_some]
  rw [releasePtr_eq (by exact hp) hw, Option.bind_some, wr_of_lt hw]
  simp

theorem perform_give_total (hw : w < N) (hp : ∀ g, s.sessionPtrs w = some g → slotIndex g = w) :
    s.perform kMaxAccept o (.give w) ≠ none := by
  simp only [perform, rd_of_lt hw, Option.bind_eq_bind, Option.bind_some]
  cases he : s.sessionPtrs w with
  | none => simp
  | some g =>
    simp only [addRef_eq (hp g he) hw, Option.bind_some]
    split <;> simp

theorem perform_push_total (hN : N < 2 ^ 32) (hr : s.set.Rep) (hw : w < N) {g : Nat}
    (hi : slotIndex g = w) : s.perform kMaxAccept o (.push g) ≠ none := by
  obtain ⟨t, ht, -⟩ := SparseSet.push_spec hr hN (by decide) (hi.trans_lt hw)
  simp [perform, ht]

theorem perform_reset_total (hw : w < N) (hown : slotIndex (s.sessions w).handle = w)
    (hp : ∀ g, s.sessionPtrs w = some g → slotIndex g = w) :
    s.perform kMaxAccept o (.reset w) ≠ none := by
  simp only [perform, hown, rd_of_lt hw, Option.bind_eq_bind, Option.bind_some, releasePtr_eq hp hw,
    wr_of_lt hw]
  simp

theorem perform_setAccountId_total (hN : N < 2 ^ 32) (hr : s.set.Rep) (hw : w < N)
    (hb : (s.view w).Base w C) {handle : Nat} (he : s.sessionPtrs w = some handle) :
    s.perform kMaxAccept o (.setAccountId w handle) ≠ none := by
  have hown : slotIndex handle = w := slotIndex_of hN hr hw (hb.entry_eq handle he)
  simp [perform, hown, rd_of_lt hw, he]

variable [Fintype ι]

/-- **An instruction that waits for no lock can be executed.** -/
theorem perform_total (hN : N < 2 ^ 32) (hg : s.Good) (hs : s.Steady) (hw : w < N)
    (hl : (s.view w).Listened (s.codeAt w)) (hlog : (s.view w).Logs (s.codeAt w))
    (hi : i.slot = some w) (hC : i ∈ s.codeAt w) (hfree : ¬ s.Blocked i) (ho : s.Answers o i) :
    s.perform kMaxAccept o i ≠ none := by
  have hr := hg.rep
  have hb := hg.base w hw
  have hf := hs.flight w hw
  have hn := hb.names i hC
  have hp : ∀ x g, ((s.sessions w).ov x).sessionPtr = some g → slotIndex g = w :=
    fun x g hg => slotIndex_of hN hr hw (hb.ptr_eq x g hg)
  have he : ∀ g, s.sessionPtrs w = some g → slotIndex g = w :=
    fun g hg => slotIndex_of hN hr hw (hb.entry_eq g hg)
  have hidx : ∀ g, some (slotIndex g) = some w → slotIndex g = w := fun _ e => Option.some.inj e
  have hused : i.needs = true → (s.view w).cell.state ≠ 0 ∧ num Instr.creates (s.codeAt w) = 0 :=
    fun h => hb.in_use (hg.cover w) hC h
  have hown : i.needs = true → slotIndex (s.sessions w).handle = w := fun h =>
    own_slot hN hr hw hb (hused h).1 (hused h).2
  -- what is in `sessionPtr_` is there to be copied
  have hload : ∀ x, i.loads x = true → ∃ g, ((s.sessions w).ov x).sessionPtr = some g ∧
      s.addRef g = some (s.count w (u64 (s.refCount w + 1))) := by
    intro x hx
    obtain ⟨g, hg⟩ := loaded hf hb (num_pos hC hx)
    exact ⟨g, hg, addRef_eq (hp x g hg) hw⟩
  cases i with
  | load | cas | rollback | acquire | lookup => cases hi
  | setListener | taskEnd | execute | account | accountEnd | logIn | logOut | onRecv =>
    simp [perform]
  | init g => exact perform_init_total hw (hidx g hi) (hb.alone (num_pos hC rfl)).2.1
  | construct g => simp [perform, addRef_eq (hidx g hi) hw]
  | enter g => exact perform_enter_total hw (hidx g hi) he
  | give k =>
    cases hi
    exact perform_give_total hw he
  | register k p =>
    cases hi
    by_cases hplain : p = .plain
    · subst hplain
      obtain ⟨hst, hcr⟩ := hf.lent_use (num_pos hC rfl)
      exact perform_register_total hN hr hw hb hst hcr he _
    · have hneeds : (Instr.register w p).needs = true := by simpa [Instr.needs] using hplain
      exact perform_register_total hN hr hw hb (hused hneeds).1 (hused hneeds).2 he _
  | assign k p session =>
    cases hi
    simp [perform, releasePtr_eq (hp p.ov) hw]
  | post k p =>
    cases hi
    exact perform_post_total hw hp ho
  | complete k x ok zero =>
    cases hi
    obtain ⟨g, hg, href⟩ := hload x (by simp)
    simp [perform, hg, href]
  | countDown g =>
    have hgot := hl.got (num_pos hC rfl)
    have hlisten : (s.sessions (slotIndex g)).listener = true := (hidx g hi).symm ▸ hgot
    simp [perform, hlisten]
  | handleError k x =>
    cases hi
    obtain ⟨g, hg, href⟩ := hload x (by simp)
    simp only [perform, hg, href, Option.bind_eq_bind, Option.bind_some]
    split <;> simp
  | failed k x g =>
    cases hi
    simp [perform, resetOv_eq (hp x) hw]
  | dispatch k x zero =>
    cases hi
    obtain ⟨g, hg, href⟩ := hload x (by simp)
    simp [perform, hg, href]
  | dispatched k x g zero =>
    cases hi
    exact perform_dispatched_total hw hp
  | handleAccept k =>
    cases hi
    have hgot : (s.sessions w).listener = true := hl.got (num_pos hC rfl)
    simp [perform, hgot]
  | connect k accepted =>
    cases hi
    exact (perform_enters_total hw (hown rfl) (by simpa [Blocked] using hfree)).1 accepted
  | connectSession k accepted =>
    cases hi
    exact (perform_moves_total hN hr hw (hown rfl)).1 accepted
  | sendPacket k p =>
    cases hi
    have hfree : (s.sessions w).sendCs = false := by simpa [Blocked] using hfree
    simp only [perform, hfree, Bool.false_eq_true, if_false]
    split <;> (try split) <;> simp
  | onSend k =>
    cases hi
    have hfree : (s.sessions w).sendCs = false := by simpa [Blocked] using hfree
    have hsend : (s.sessions w).isSending = true := by
      have honce := hf.send_once
      have hpos := num_pos (q := Instr.sends) hC rfl
      cases hsent : (s.sessions w).isSending with
      | true => rfl
      | false =>
        rw [show (s.view w).conn.isSending = false from hsent] at honce
        simp only [Bool.toNat_false] at honce
        omega
    simp only [perform, hfree, hsend, Bool.false_eq_true, not_true_eq_false, or_self, if_false]
    split <;> simp
  | disconnect k =>
    cases hi
    exact (perform_enters_total hw (hown rfl) (by simpa [Blocked] using hfree)).2
  | setState k =>
    cases hi
    exact (perform_moves_total hN hr hw (hown rfl)).2
  | reset k =>
    cases hi
    exact perform_reset_total hw (hown rfl) he
  | drop g => simp [perform, releaseRef_eq (hidx g hi) hw]
  | push g => exact perform_push_total hN hr hw (hidx g hi)
  | setAccountId k handle =>
    cases hi
    exact perform_setAccountId_total hN hr hw hb (hlog.given_entry hC)

/-- So can those about no slot. -/
theorem perform_idle_total (hN : N < 2 ^ 32) (hg : s.Good) (hi : i.slot = none)
    (hreach : reaches N i) : s.perform kMaxAccept o i ≠ none := by
  have he : ∀ w < N, ∀ g, s.sessionPtrs w = some g → slotIndex g = w := fun w hw g he =>
    slotIndex_of hN hg.rep hw ((hg.base w hw).entry_eq g he)
  cases i with
  | load | cas =>
    simp only [perform]
    split <;> simp
  | rollback => simp [perform]
  | acquire => exact perform_acquire_total hN hg.rep
  | lookup handle call => exact perform_lookup_total hreach rfl (he _ hreach)
  | _ => cases hi

/-! ### Runs -/

/-- **What keeps the threads going.** -/
structure Lively (s : Engine ι N) : Prop where
  steady : s.Steady
  listened : ∀ w < N, (s.view w).Listened (s.codeAt w)
  entered : s.Entered
  orderly : s.Orderly
  reaches : ∀ a, ∀ i ∈ s.code a, Engine.reaches N i

theorem Lively.total (hN : N < 2 ^ 32) (hl : s.Lively) {a : ι} (hi : i ∈ s.code a)
    (hfree : ¬ s.Blocked i) (ho : s.Answers o i) : s.perform kMaxAccept o i ≠ none := by
  have hg := hl.entered.good
  cases hslot : i.slot with
  | none => exact perform_idle_total hN hg hslot (hl.reaches a i hi)
  | some w =>
    have hw := hg.inRange a i hi w hslot
    exact perform_total hN hg hl.steady hw (hl.listened w hw) (hl.entered.executed w hw) hslot
      (mem_codeAt.mpr ⟨⟨a, hi⟩, hslot⟩) hfree ho

/-- Whoever is inside is at its next instruction. -/
theorem Orderly.at_head (hk : s.Orderly) {b : ι} {j : Instr} (hj : j ∈ s.code b)
    (hin : j.locks = true) : ∃ rest, s.code b = j :: rest := by
  have hfirst := List.countP_eq_zero.mp (hk.first b)
  cases hc : s.code b with
  | nil =>
    rw [hc] at hj
    cases hj
  | cons k rest =>
    rw [hc] at hj hfirst
    rcases List.mem_cons.mp hj with rfl | hj
    · exact ⟨rest, rfl⟩
    · exact absurd hin (hfirst j hj)

/-- A lock that is taken has somebody inside. -/
theorem Lively.holder (hl : s.Lively) {a : ι} {rest : List Instr} (h : s.code a = i :: rest)
    (hb : s.Blocked i) : ∃ b j rest, s.code b = j :: rest ∧ Frees i j := by
  have hg := hl.entered.good
  have inside : ∀ w q, i.slot = some w → num q (s.codeAt w) = 1 → (∀ j, q j = true → j.locks = true) →
      ∃ b j rest, s.code b = j :: rest ∧ j.slot = i.slot ∧ q j = true := by
    intro w q hi hone hq
    obtain ⟨j, hj, hqj⟩ : ∃ j ∈ s.codeAt w, q j = true := by
      by_contra hno
      push Not at hno
      have := num_eq_zero.mpr fun j hj => by simpa using hno j hj
      omega
    obtain ⟨⟨b, hb⟩, hslot⟩ := mem_codeAt.mp hj
    obtain ⟨rest, hc⟩ := hl.orderly.at_head hb (hq j hqj)
    exact ⟨b, j, rest, hc, hslot.trans hi.symm, hqj⟩
  have hw : ∀ w, i.slot = some w → w < N := hg.inRange a i (h ▸ List.mem_cons_self)
  cases i with
  | connect w k | disconnect w =>
    have hlock := (hg.base w (hw w rfl)).locked
    rw [show (s.view w).conn.connectCs = true from hb, Bool.toNat_true] at hlock
    exact inside w Instr.inConnectCs rfl hlock fun j hj => by simp [Instr.locks, hj]
  | sendPacket w p | onSend w =>
    have hlock := (hl.orderly.locked w (hw w rfl)).taken
    rw [show (s.view w).conn.sendCs = true from hb, Bool.toNat_true] at hlock
    exact inside w Instr.inSendCs rfl hlock fun j hj => by simp [Instr.locks, hj]
  | _ => exact hb.elim

theorem start_lively (hN : N < 2 ^ 32) : (start ι N).Lively := by
  have hall : ∀ w, (start ι N).codeAt w = 0 := by
    intro w
    rw [codeAt, show (start ι N).all = 0 from Finset.sum_eq_zero fun _ _ => rfl, Multiset.filter_zero]
  refine ⟨start_steady, fun w _ => ?_, start_entered hN, start_orderly, ?_⟩
  · rw [hall w]
    exact Seat.fresh_listened
  · intro a i hi
    cases hi

variable [DecidableEq ι]

omit [Fintype ι] [DecidableEq ι] in
theorem reaches_of_slot (hi : i.slot = some w) : reaches N i := by
  cases i with
  | lookup => cases hi
  | _ => trivial

omit [Fintype ι] [DecidableEq ι] in
theorem reaches_spawns (v : Seat) (i : Instr) (ho : ∀ handle ∈ o.handles, slotIndex handle < N) :
    ∀ j ∈ i.spawns v o, reaches N j := by
  cases i with
  | give k =>
    simp only [Instr.spawns]
    split <;> simp [reaches]
  | post k p => cases p <;> simp [Instr.spawns, reaches]
  | execute t =>
    simp only [Instr.spawns]
    split
    · simpa [reaches] using ho
    · simp
  | _ => simp [Instr.spawns, reaches]

/-- Handles of slots are all that is looked up. -/
theorem reaches_step (hN : N < 2 ^ 32) (hg : s.Good) (hf : s.Fits) (he : e.Reaches N)
    (h : s.step kMaxAccept e = some s') (hr : ∀ a, ∀ i ∈ s.code a, reaches N i) :
    ∀ a, ∀ i ∈ s'.code a, reaches N i := by
  obtain ⟨hm, hr'⟩ := step_moves hN hg h
  cases hm with
  | slot hw hst ho htch hc =>
    rename_i w act is is' fs fs'
    obtain ⟨hslot, -, -, -⟩ := hg.seat hN hf hw hr' hst htch hc
    refine hc.forall (P := fun l => ∀ i ∈ l, reaches N i) hr fun rest hl i hi => ?_
    rw [List.append_assoc, List.mem_append, List.mem_append] at hi
    rcases hi with hi | hi | hi
    · exact reaches_of_slot (hslot i hi)
    · cases htch with
      | run _ _ _ _ => exact reaches_spawns _ _ he i hi
      | _ => cases hi
    · exact hl i (List.mem_append_right _ hi)
  | idle ho htasks hi hc =>
    refine hc.forall (P := fun l => ∀ i ∈ l, reaches N i) hr fun rest hl i hi' => ?_
    rcases List.mem_append.mp hi' with hi' | hi'
    · cases hi with
      | call hp =>
        obtain rfl := List.mem_singleton.mp hi'
        exact he
      | postAccept | load | cas | retry | empty =>
        obtain rfl := List.mem_singleton.mp hi'
        trivial
      | full | rollback | lookup => cases hi'
    · exact hl i (List.mem_append_right _ hi')

/-- **One step.** -/
theorem Lively.step (hN : N < 2 ^ 32) (hl : s.Lively) (hk : s.Keeps e)
    (h : s.step kMaxAccept e = some s') : s'.Lively := by
  have hg := hl.entered.good
  refine ⟨hl.steady.step hN hg hk.fits hk.tame h, hg.slots hN hk.fits h hl.listened ?_,
    hl.entered.step hN hk.fits hk.logs h, hl.orderly.step hN hg hk.fits hl.steady h,
    reaches_step hN hg hk.fits hk.reaches h hl.reaches⟩
  intro w hw a is is' fs fs' M hst htch hM
  have hlisten := hl.listened w hw
  have hflight := hl.steady.flight w hw
  have hb := hg.base w hw
  have hcov := hg.cover w
  have hact := hk.inTime.act htch
  rw [hM] at hlisten hflight hb hcov hact
  exact hlisten.step hflight hb hst hcov hact

omit [Fintype ι] in
theorem step_run_isSome {a : ι} {rest : List Instr} (h : s.code a = i :: rest)
    (hp : s.perform kMaxAccept o i ≠ none) : (s.step kMaxAccept (.run a o)).isSome := by
  obtain ⟨⟨t, l⟩, hp⟩ := Option.ne_none_iff_exists'.mp hp
  simp [Engine.step, h, hp]

/-! ### The critical sections -/

omit [Fintype ι] [DecidableEq ι] in
theorem Frees.left_pos {j : Instr} (h : Frees i j) : 0 < j.left ∧ j.left ≤ 3 := by
  cases j with
  | register | assign | post | connectSession | setState => simp [Instr.left]
  | _ => cases i <;> simp [Frees] at h

/-- A thread that has something to do is not disturbed. -/
theorem step_undisturbed (hN : N < 2 ^ 32) (hg : s.Good) (h : s.step kMaxAccept e = some s') {b : ι}
    (hb : s.code b ≠ []) (he : ∀ o, e ≠ .run b o) : s'.code b = s.code b := by
  cases e with
  | accepted | disconnected =>
    simp only [Engine.step] at h
    split at h <;> cases h
    rfl
  | run a o =>
    have hne : b ≠ a := by
      rintro rfl
      exact he o rfl
    obtain ⟨_, _, _, -, hcode, -⟩ := hg.run hN h
    rw [hcode, Function.update_of_ne hne]
  | task a =>
    simp only [Engine.step] at h
    split at h
    · split at h
      · rename_i ha
        have hne : b ≠ a := by
          rintro rfl
          exact hb ha
        cases h
        exact putCode_other hne _ _
      · cases h
    · cases h
  | postAccept a | call a =>
    simp only [Engine.step] at h
    split at h
    · rename_i ha
      have hne : b ≠ a := by
        rintro rfl
        exact hb ha
      cases h
      exact putCode_other hne _ _
    · cases h
  | dequeue a =>
    simp only [Engine.step] at h
    split at h
    · rename_i ha
      have hne : b ≠ a := by
        rintro rfl
        exact hb ha.1
      cases h
      exact putCode_other hne _ _
    · cases h

/-- The thread inside leaves its critical section, or comes closer to its end. -/
theorem Lively.leaves (hN : N < 2 ^ 32) (hl : s.Lively) {b : ι} {j : Instr} {rest : List Instr}
    (hc : s.code b = j :: rest) (hj : Frees i j) (h : s.step kMaxAccept (.run b o) = some s') :
    ¬ s'.Blocked i ∨ ∃ k rest, s'.code b = k :: rest ∧ Frees i k ∧ k.left < j.left := by
  have hg := hl.entered.good
  simp only [Engine.step, hc] at h
  obtain ⟨⟨t, l⟩, hp, h⟩ := Option.bind_eq_some_iff.mp h
  cases h
  obtain ⟨w, hi⟩ : ∃ w, i.slot = some w := by
    cases i with
    | connect | disconnect | sendPacket | onSend => exact ⟨_, rfl⟩
    | _ => simp [Frees] at hj
  have hslot : j.slot = some w := hj.1.trans hi
  have hw := hg.inRange b j (hc ▸ List.mem_cons_self) w hslot
  have hmem : j ∈ s.codeAt w := mem_codeAt.mpr ⟨⟨b, hc ▸ List.mem_cons_self⟩, hslot⟩
  have hact := perform_local hN hg.rep hw hslot (hg.base w hw) hmem hp
  obtain ⟨is, hst, rfl⟩ := hact.seat
  obtain ⟨M, hM⟩ := Multiset.exists_cons_of_mem hmem
  have hM : s.codeAt w = ↑[j] + M := hM
  obtain ⟨hconn, hsend⟩ :=
    hst.leaves (M := M) (hM ▸ hl.orderly.locked w hw) (hM ▸ hl.steady.flight w hw)
  cases i with
  | connect k | disconnect k =>
    obtain rfl : k = w := Option.some.inj hi
    have hfree : (t.sessions k).connectCs = false := hconn hj.2
    exact .inl (by simp [Blocked, putCode, hfree])
  | sendPacket k | onSend k =>
    obtain rfl : k = w := Option.some.inj hi
    rcases hsend hj.2 with hfree | ⟨i', rfl, hs', hin, hlt⟩
    · have hfree : (t.sessions k).sendCs = false := hfree
      exact .inl (by simp [Blocked, putCode, hfree])
    · exact .inr ⟨i', _, by rw [putCode_self]; rfl, ⟨hs', hin⟩, hlt⟩
  | _ => simp [Frees] at hj

/-- Until the lock is free the thread inside has been coming closer. -/
theorem Lively.releases (hN : N < 2 ^ 32) (hl : s.Lively) {b : ι} {j : Instr} {rest : List Instr}
    (hc : s.code b = j :: rest) (hj : Frees i j) {t : Engine ι N} {fs : List (Event ι)}
    (r : Runs (Engine.step kMaxAccept) Keeps s fs t) :
    (∃ fs₁ fs₂ u, fs = fs₁ ++ fs₂ ∧ Runs (Engine.step kMaxAccept) Keeps s fs₁ u ∧ ¬ u.Blocked i) ∨
      ∃ k rest, t.code b = k :: rest ∧ Frees i k ∧ k.left + fs.countP (Event.turn b) ≤ j.left := by
  have hlively : ∀ {fs t}, Runs (Engine.step kMaxAccept) Keeps s fs t → t.Lively := fun r =>
    r.invariant hl fun _ _ _ hl hk hs => hl.step hN hk hs
  induction r with
  | refl => exact .inr ⟨j, rest, hc, hj, le_rfl⟩
  | @more t u fs e r hk h ih =>
    rcases ih with ⟨fs₁, fs₂, v, rfl, r₁, hfree⟩ | ⟨k, rest', hc', hk', hle⟩
    · exact .inl ⟨fs₁, fs₂ ++ [e], v, List.append_assoc .., r₁, hfree⟩
    · by_cases he : ∃ o, e = .run b o
      · obtain ⟨o, rfl⟩ := he
        rcases (hlively r).leaves hN hc' hk' h with hfree | ⟨k', rest'', hc'', hk'', hlt⟩
        · exact .inl ⟨_, [], u, (List.append_nil _).symm, .more r hk h, hfree⟩
        · refine .inr ⟨k', rest'', hc'', hk'', ?_⟩
          simp [Event.turn]
          omega
      · have hcode := step_undisturbed hN (hlively r).entered.good h
          (by rw [hc']; exact List.cons_ne_nil _ _) fun o e => he ⟨o, e⟩
        have hturn : Event.turn b e = false := by
          cases e with
          | run a o => simpa [Event.turn] using fun e : a = b => he ⟨o, by rw [e]⟩
          | _ => rfl
        refine .inr ⟨k, rest', hcode.trans hc', hk', ?_⟩
        simpa [hturn] using hle

instance (e : Event ι) : Decidable (e.Reaches N) :=
  match e with
  | .call _ handle _ => inferInstanceAs (Decidable (slotIndex handle < N))
  | .run _ o => inferInstanceAs (Decidable (∀ handle ∈ o.handles, slotIndex handle < N))
  | .postAccept _ | .task _ | .accepted _ | .disconnected _ | .dequeue .. => .isTrue trivial

instance (s : Engine ι N) (e : Event ι) : Decidable (s.Keeps e) :=
  decidable_of_iff (s.Fits ∧ s.Tame e ∧ s.InTime e ∧ s.LogsInTime e ∧ e.Reaches N)
    ⟨fun h => ⟨h.1, h.2.1, h.2.2.1, h.2.2.2.1, h.2.2.2.2⟩,
      fun h => ⟨h.fits, h.tame, h.inTime, h.logs, h.reaches⟩⟩

/-- A client is accepted, and a sender comes while the welcome is being posted. -/
def meet (a b : ι) : List (Event ι) :=
  .postAccept a :: runs a 13 ++ .accepted 0 :: .dequeue a 0 .recv true false :: runs a 12 ++
    .call b 0 .send :: runs b 1

/-- The sender waits. -/
theorem run_meet : ∃ (s : Engine (Fin 2) 1) (rest : List Instr),
    Runs (step 1) Keeps (start (Fin 2) 1) (meet 0 1) s ∧ s.code 1 = .sendPacket 0 .plain :: rest ∧
      s.Blocked (.sendPacket 0 .plain) ∧ (s.step 1 (.run 1 well)).isNone := by
  have hexec : (execIf (fun s e => decide (s.Keeps e)) (step 1) (start (Fin 2) 1) (meet 0 1)).map
      (fun s => decide (s.code 1 = [.sendPacket 0 .plain, .drop 0] ∧ (s.sessions 0).sendCs = true ∧
        (s.step 1 (.run 1 well)).isNone)) = some true := by
    decide +kernel
  obtain ⟨s, hs, heq⟩ := Option.map_eq_some_iff.mp hexec
  obtain ⟨hcode, hcs, hnone⟩ := of_decide_eq_true heq
  refine ⟨s, _, ?_, hcode, hcs, hnone⟩
  exact Runs.of_execIf (I := fun _ => True) (fun _ _ _ h => of_decide_eq_true h)
    (fun _ _ _ _ _ _ => trivial) trivial hs

/-- Some thread can go on as long as there is something to do. -/
theorem Lively.goes (kMaxAccept : Nat) (hN : N < 2 ^ 32) (hl : s.Lively) {a : ι}
    (h : s.code a ≠ []) :
    ∃ b j rest, s.code b = j :: rest ∧
      ∀ o, s.Answers o j → (s.step kMaxAccept (.run b o)).isSome := by
  obtain ⟨i, rest, hc⟩ := List.exists_cons_of_ne_nil h
  by_cases hb : s.Blocked i
  · obtain ⟨b, j, rest', hc', hfrees⟩ := hl.holder hc hb
    exact ⟨b, j, rest', hc', fun o ho =>
      step_run_isSome hc' (hl.total hN (hc' ▸ List.mem_cons_self) hfrees.free ho)⟩
  · exact ⟨a, i, rest, hc, fun o ho =>
      step_run_isSome hc (hl.total hN (hc ▸ List.mem_cons_self) hb ho)⟩

/-- **No thread is stuck**: its next instruction can be executed, or it waits for a lock and the
thread inside can go on. -/
theorem never_stuck (hN : N < 2 ^ 32) (r : Runs (Engine.step kMaxAccept) Keeps (start ι N) es s) {a : ι}
    {rest : List Instr} (h : s.code a = i :: rest) :
    (∀ o, s.Answers o i → (s.step kMaxAccept (.run a o)).isSome) ∨
      s.Blocked i ∧ ∃ b j rest, s.code b = j :: rest ∧ Frees i j ∧
        ∀ o, s.Answers o j → (s.step kMaxAccept (.run b o)).isSome := by
  have hl : s.Lively := r.invariant (start_lively hN) fun _ _ _ hl hk hs => hl.step hN hk hs
  by_cases hb : s.Blocked i
  · obtain ⟨b, j, rest', hc, hfrees⟩ := hl.holder h hb
    refine .inr ⟨hb, b, j, rest', hc, hfrees, fun o ho => step_run_isSome hc ?_⟩
    exact hl.total hN (hc ▸ List.mem_cons_self) hfrees.free ho
  · refine .inl fun o ho => step_run_isSome h ?_
    exact hl.total hN (h ▸ List.mem_cons_self) hb ho

/-- A sender waits, and the thread inside can go on. -/
theorem never_stuck_meet : ∃ s : Engine (Fin 2) 1,
    Runs (step 1) Keeps (start (Fin 2) 1) (meet 0 1) s ∧ s.Blocked (.sendPacket 0 .plain) ∧
      ∃ b j rest, s.code b = j :: rest ∧ Frees (.sendPacket 0 .plain) j ∧
        ∀ o, s.Answers o j → (s.step 1 (.run b o)).isSome := by
  obtain ⟨s, rest, r, hcode, -, hnone⟩ := run_meet
  refine ⟨s, r, (never_stuck (by decide) r hcode).resolve_left fun hgo => ?_⟩
  have hsome := hgo well trivial
  rw [Option.isNone_iff_eq_none.mp hnone] at hsome
  cases hsome

/-- **A lock is released** before the thread inside has taken three more steps, whatever the others
do meanwhile. -/
theorem lock_released (hN : N < 2 ^ 32) (r : Runs (step kMaxAccept) Keeps (start ι N) es s) {a : ι}
    {rest : List Instr} (h : s.code a = i :: rest) (hb : s.Blocked i) :
    ∃ b j rest, s.code b = j :: rest ∧ Frees i j ∧ ∀ fs t, Runs (step kMaxAccept) Keeps s fs t →
      3 ≤ fs.countP (Event.turn b) →
      ∃ fs₁ fs₂ u, fs = fs₁ ++ fs₂ ∧ Runs (step kMaxAccept) Keeps s fs₁ u ∧ ¬ u.Blocked i := by
  have hl : s.Lively := r.invariant (start_lively hN) fun _ _ _ hl hk hs => hl.step hN hk hs
  obtain ⟨b, j, rest', hc, hj⟩ := hl.holder h hb
  refine ⟨b, j, rest', hc, hj, fun fs t r' h3 => ?_⟩
  rcases hl.releases hN hc hj r' with hfree | ⟨k, _, -, hk, hle⟩
  · exact hfree
  · have h₁ := hk.left_pos
    have h₂ := hj.left_pos
    omega

/-- The sender waits for three steps of the other thread at most. -/
theorem lock_released_meet : ∃ s : Engine (Fin 2) 1,
    Runs (step 1) Keeps (start (Fin 2) 1) (meet 0 1) s ∧
      ∃ b j rest, s.code b = j :: rest ∧ Frees (.sendPacket 0 .plain) j ∧ ∀ fs t,
        Runs (step 1) Keeps s fs t → 3 ≤ fs.countP (Event.turn b) →
        ∃ fs₁ fs₂ u, fs = fs₁ ++ fs₂ ∧ Runs (step 1) Keeps s fs₁ u ∧
          ¬ u.Blocked (.sendPacket 0 .plain) := by
  obtain ⟨s, rest, r, hcode, hb, -⟩ := run_meet
  exact ⟨s, r, lock_released (by decide) r hcode hb⟩

end Engine

end IocpServer
