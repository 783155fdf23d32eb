import IocpServer.Server.Flight

/-!
# Server — Pinned

An operation in flight pins its session.

* `Tame`: senders are the only callers, and packet tasks keep to sessions in use.
* `Steady.step`: tame steps keep the operations of every slot in order.
* `inFlight_pinned`: without packet tasks, in every run, each `OverlappedEx` has at most one
  operation outstanding, with a pointer to the present session, and no slot with an operation
  outstanding is pushed or initialised.
-/

namespace IocpServer

namespace Instr

/-- What a sender, or a packet task, has behind it. -/
def backs : Instr → Bool
  | .drop _ | .taskEnd _ => true
  | _ => false

/-- Of a packet task. -/
def tasks : Instr → Bool
  | .execute _ | .taskEnd _ => true
  | _ => false

/-- The slot pushed. -/
def pushed : Instr → Option Nat
  | .push g => some (slotIndex g)
  | _ => none

end Instr

attribute [simp] Instr.backs.eq_1 Instr.backs.eq_2 Instr.backs.eq_3 Instr.tasks.eq_1
  Instr.tasks.eq_2 Instr.tasks.eq_3

variable {w : Nat} {v v' : Seat} {a : Act} {is is' l : List Instr}

theorem not_lent {l : List Instr} (h : l.countP Instr.lent = 0) : ∀ i ∈ l, i.lent = false := by
  simpa using List.countP_eq_zero.mp h

/-- What is sent is sent for a pointer or a task behind it. -/
theorem SeatStep.lent (hs : SeatStep w v a is is' v')
    (hl : Engine.Covered Instr.lent Instr.backs (is ++ l)) (hi : ∀ i ∈ is, i.slot = some w)
    (hi' : ∀ i ∈ is', i.slot = some w) : Engine.Covered Instr.lent Instr.backs (is' ++ l) := by
  have hrest : ∀ {i : Instr}, is = [i] → Engine.Covered Instr.lent Instr.backs l := by
    rintro i rfl
    exact hl.2
  have hbehind : ∀ {i : Instr}, is = [i] → i.lent = true → i.backs = false →
      Engine.Paid Instr.backs w l := by
    rintro i rfl hn hp
    exact hl.behind (hi i List.mem_cons_self) hn hp
  have hplain : ∀ {p : Purpose} {i : Instr}, is = [i] → i.lent = (p == .plain) → i.backs = false →
      (p ≠ .plain → is'.countP Instr.lent = 0) →
      Engine.Covered Instr.lent Instr.backs (is' ++ l) := by
    intro p i hi₁ hn hb h0
    by_cases e : p = .plain
    · exact (hrest hi₁).append (hbehind hi₁ (by rw [hn, e]; rfl) hb) hi'
    · exact (hrest hi₁).idle (not_lent (h0 e))
  cases hs with
  | overflow | register | registerDisconnect | assign | posted | notPosted | sendFull | sendBusy
  | sendIdle =>
    refine hplain rfl rfl rfl fun e => ?_
    simp [countP_last, e]
  | execute => exact (hrest rfl).append (hbehind rfl rfl rfl) hi'
  | task =>
    rw [List.forall_mem_cons, List.forall_mem_singleton] at hi'
    exact Engine.Covered.own hl hi'.2 rfl [_] (by simpa using hi'.1)
  | lookup =>
    rw [List.forall_mem_append, List.forall_mem_singleton] at hi'
    rw [List.append_assoc]
    exact Engine.Covered.own hl hi'.2 rfl _ hi'.1
  | pop | dequeue | accepted | disconnected => exact Engine.Covered.idle hl (by simp)
  | dispatched h =>
    refine (hrest rfl).idle (not_lent ?_)
    simp [countP_last, h.count Instr.lent]
  | _ =>
    refine (hrest rfl).idle (not_lent ?_)
    simp [countP_last]

/-- Only the start of a packet task leaves instructions of one. -/
theorem SeatStep.untasked (hs : SeatStep w v a is is' v') (h0 : is.countP Instr.tasks = 0)
    (ha : ∀ t, a ≠ .task t) : is'.countP Instr.tasks = 0 := by
  cases hs with
  | task => exact absurd rfl (ha _)
  | execute => simp at h0
  | dispatched h => simp [countP_last, h.count Instr.tasks]
  | _ => simp [countP_last]

/-- An event of the accept loop, the I/O workers and the senders. -/
def Engine.Event.Io {ι : Type} : Engine.Event ι → Prop
  | .call _ _ c => c = .send
  | .task _ => False
  | _ => True

instance {ι : Type} (e : Engine.Event ι) : Decidable e.Io :=
  match e with
  | .call _ _ c => inferInstanceAs (Decidable (c = .send))
  | .task _ => .isFalse id
  | .postAccept _ | .accepted _ | .disconnected _ | .dequeue .. | .run .. => .isTrue trivial

namespace Engine

variable {ι : Type} {N kMaxAccept : Nat} {s s' : Engine ι N} {e : Event ι} {es : List (Event ι)}
  {fs fs' : List Instr}

/-- The calls are senders'. -/
def calls : Instr → Prop
  | .lookup _ call => call = .send
  | _ => True

theorem lent_of_slot {i : Instr} (hi : i.slot = none) : i.lent = false := by
  cases i with
  | register | assign | post | sendPacket | execute => cases hi
  | _ => rfl

theorem tasks_of_slot {i : Instr} (hi : i.slot = none) : i.tasks = false := by
  cases i with
  | execute | taskEnd => cases hi
  | _ => rfl

theorem calls_of_slot {i : Instr} (hi : i.slot = some w) : calls i := by
  cases i with
  | lookup => cases hi
  | _ => trivial

theorem calls_spawns (v : Seat) (o : Outcome) (i : Instr) : ∀ j ∈ i.spawns v o, calls j := by
  cases i with
  | give k =>
    simp only [Instr.spawns]
    split <;> simp [calls]
  | post k p => cases p <;> simp [Instr.spawns, calls]
  | execute t =>
    simp only [Instr.spawns]
    split <;> simp [calls]
  | _ => simp [Instr.spawns, calls]

variable [Fintype ι]

/-- Senders are the only callers; a packet task starts on a session in use, and no slot is pushed
under one. -/
def Tame (s : Engine ι N) : Event ι → Prop
  | .call _ _ call => call = .send
  | .task _ => ∀ t ∈ s.tasks.head?,
      (s.view t.slot).cell.state ≠ 0 ∧ num Instr.creates (s.codeAt t.slot) = 0
  | .run a _ => ∀ w ∈ (s.code a).head?.bind Instr.pushed, ∀ b, .taskEnd w ∉ s.code b
  | _ => True

/-- **The operations of every slot are in order.** -/
structure Steady (s : Engine ι N) : Prop where
  flight : ∀ w < N, (s.view w).Flight (s.codeAt w)
  lent : ∀ a, Covered Instr.lent Instr.backs (s.code a)
  calls : ∀ a, ∀ i ∈ s.code a, Engine.calls i

theorem start_steady : (start ι N).Steady := by
  have hall : (start ι N).all = 0 := Finset.sum_eq_zero fun _ _ => rfl
  refine ⟨fun w _ => ?_, fun _ => trivial, ?_⟩
  · rw [codeAt, hall, Multiset.filter_zero]
    exact Seat.fresh_flight
  · intro a i hi
    cases hi

/-- A slot that is pushed is used by nobody: its pointers are gone, and so are its tasks. -/
theorem Steady.unlent (hs : s.Steady) (hg : s.Good) {g : Nat} {M : Multiset Instr} (hw : w < N)
    (hM : s.codeAt w = ↑[Instr.push g] + M) (ht : ∀ b, .taskEnd w ∉ s.code b) :
    num Instr.lent (s.codeAt w) = 0 := by
  have hb := hg.base w hw
  rw [hM] at hb
  have hweight := (hb.pushing rfl).2.2.1
  refine num_eq_zero.mpr fun i hi => ?_
  by_contra hl
  obtain ⟨⟨b, hib⟩, hiw⟩ := mem_codeAt.mp hi
  obtain ⟨j, hj, hjw, hback⟩ := (hs.lent b).paid hib (by simpa using hl)
  have hmem : j ∈ s.codeAt w := mem_codeAt.mpr ⟨⟨b, hj⟩, hjw.trans hiw⟩
  cases j with
  | drop g' =>
    have := le_weight (f := Instr.holds) hmem
    rw [hM] at this
    simp [hweight] at this
  | taskEnd w' =>
    obtain rfl : w' = w := Option.some.inj (hjw.trans hiw)
    exact ht b hj
  | _ => simp at hback

theorem Steady.allowed (hs : s.Steady) (hg : s.Good) (ht : s.Tame e) (hw : w < N)
    (htch : Touches s s' e w a is fs fs') {M : Multiset Instr} (hM : s.codeAt w = is + M) :
    (s.view w).Allowed (s.codeAt w) a := by
  cases htch with
  | run hc hi _ _ =>
    rename_i b o i rest _ _
    cases i with
    | push g =>
      obtain rfl : slotIndex g = w := Option.some.inj hi
      refine hs.unlent hg hw hM (ht (slotIndex g) ?_)
      rw [hc]
      rfl
    | _ => trivial
  | lookup hc _ _ =>
    rename_i b o h call rest _ _
    exact hs.calls b (.lookup h call) (hc ▸ List.mem_cons_self)
  | task hp htasks =>
    rename_i b t
    refine ht t ?_
    rw [htasks]
    rfl
  | _ => trivial

variable [DecidableEq ι]

/-- **A tame step keeps the operations in order.** -/
theorem Steady.step (hN : N < 2 ^ 32) (hs : s.Steady) (hg : s.Good) (hf : s.Fits) (ht : s.Tame e)
    (h : s.step kMaxAccept e = some s') : s'.Steady := by
  obtain ⟨hm, hr'⟩ := step_moves hN hg h
  cases hm with
  | slot hw hst ho htch hc =>
    rename_i w act is is' fs fs'
    obtain ⟨hslot, ⟨M, hM, hM'⟩, -, hother⟩ := hg.seat hN hf hw hr' hst htch hc
    obtain ⟨hi, hfs, hfs', hnil⟩ := htch.slots
    have hflight := hs.flight w hw
    have hb := hg.base w hw
    have hcov := hg.cover w
    have hok := hs.allowed hg ht hw htch hM
    rw [hM] at hflight hb hcov hok
    refine ⟨fun x hx => ?_, ?_, ?_⟩
    · by_cases e : x = w
      · subst e
        rw [hM']
        exact hflight.step hb hst hcov (hg.rep.state_lt x hx) hok
      · rw [ho x e, hother x e]
        exact hs.flight x hx
    · refine hc.forall hs.lent fun rest hl => ?_
      rw [List.append_assoc]
      refine Covered.insert (fun i hi => lent_of_slot (hfs' i hi).1) ?_
      rw [List.append_assoc] at hl
      rcases hnil with rfl | rfl
      · exact hst.lent (Covered.tail fs hl) hi hslot
      · exact hst.lent hl hi hslot
    · refine hc.forall (P := fun l => ∀ i ∈ l, Engine.calls i) hs.calls fun rest hl i hi' => ?_
      rw [List.append_assoc, List.mem_append, List.mem_append] at hi'
      rcases hi' with hi' | hi' | hi'
      · exact calls_of_slot (hslot i hi')
      · cases htch with
        | run _ _ _ _ => exact calls_spawns _ _ _ i hi'
        | _ => cases hi'
      · exact hl i (List.mem_append_right _ hi')
  | idle ho htasks hi hc =>
    rename_i fs fs'
    obtain ⟨hfs, hfs'⟩ := hi.slots
    have hcode := hi.codeAt hc
    refine ⟨fun x hx => ?_, ?_, ?_⟩
    · rw [ho x, hcode x]
      exact hs.flight x hx
    · exact hc.forall hs.lent fun rest hl =>
        Covered.idle (Covered.tail _ hl) fun i hi => lent_of_slot (hfs' i hi).1
    · refine hc.forall (P := fun l => ∀ i ∈ l, Engine.calls i) hs.calls fun rest hl i hi' => ?_
      rcases List.mem_append.mp hi' with hi' | hi'
      · cases hi with
        | call hp =>
          obtain rfl := List.mem_singleton.mp hi'
          exact ht
        | postAccept | load | cas | retry | empty =>
          obtain rfl := List.mem_singleton.mp hi'
          trivial
        | full | rollback | lookup => cases hi'
      · exact hl i (List.mem_append_right _ hi')

/-- Without packet tasks there is nothing of one. -/
theorem untasked_step (hN : N < 2 ^ 32) (hg : s.Good) (he : e.Io)
    (h : s.step kMaxAccept e = some s') (h0 : num Instr.tasks s.all = 0) :
    num Instr.tasks s'.all = 0 := by
  obtain ⟨hm, -⟩ := step_moves hN hg h
  cases hm with
  | slot hw hst ho htch hc =>
    rename_i w act is is' fs fs'
    obtain ⟨R, hall, hall'⟩ := hc.all
    have hact : ∀ t, act ≠ .task t := by
      rintro t rfl
      cases htch
      exact he
    have hfs' : fs'.countP Instr.tasks = 0 := by
      refine List.countP_eq_zero.mpr fun i hi => ?_
      simp [tasks_of_slot (htch.slots.2.2.1 i hi).1]
    rw [hall, num_add, num_coe, List.countP_append] at h0
    rw [hall', num_add, num_coe, List.countP_append, hst.untasked (by omega) hact, hfs']
    omega
  | idle ho htasks hi hc =>
    obtain ⟨R, hall, hall'⟩ := hc.all
    rw [hall, num_add, num_coe] at h0
    rw [hall', num_add, num_coe]
    cases hi <;> simp at h0 ⊢ <;> omega

omit [DecidableEq ι] in
theorem Event.Io.tame (he : e.Io) (h0 : num Instr.tasks s.all = 0) : s.Tame e := by
  cases e with
  | call => exact he
  | task => exact he.elim
  | run =>
    intro w _ b hb
    have := num_eq_zero.mp h0 _ (mem_all.mpr ⟨b, hb⟩)
    simp at this
  | _ => trivial

/-- **An operation in flight pins its session.** -/
theorem inFlight_pinned (hN : N < 2 ^ 32)
    (r : Runs (step kMaxAccept) (fun s e => s.Fits ∧ e.Io) (start ι N) es s) (hw : w < N) :
    (∀ x, ((s.sessions w).ov x).ops ≤ 1 ∧ (0 < ((s.sessions w).ov x).ops →
      ((s.sessions w).ov x).sessionPtr = some ((s.view w).handle w))) ∧
    ∀ a g, slotIndex g = w → .push g ∈ s.code a ∨ .init g ∈ s.code a →
      ∀ x, ((s.sessions w).ov x).ops = 0 := by
  obtain ⟨hg, hs, -⟩ := r.invariant (I := fun s => s.Good ∧ s.Steady ∧ num Instr.tasks s.all = 0)
    ⟨start_good hN, start_steady, by simp [all, start, total]⟩ fun t e u ⟨hg, hs, h0⟩ hte hu => by
      exact ⟨hg.step hN hte.1 hu, hs.step hN hg hte.1 (Event.Io.tame hte.2 h0) hu,
        untasked_step hN hg hte.2 hu h0⟩
  have hb := hg.base w hw
  have hf := hs.flight w hw
  refine ⟨fun x => ⟨?_, fun hpos => ?_⟩, fun a g hgw hmem => ?_⟩
  · exact (Nat.le_add_right _ _).trans (hf.once hb x)
  · have hle := hf.pinned hb x
    obtain ⟨g, hp⟩ : ∃ g, ((s.sessions w).ov x).sessionPtr = some g := by
      refine Option.ne_none_iff_exists'.mp fun e => ?_
      rw [show ((s.view w).conn.ov x).sessionPtr = none from e, refs_none] at hle
      exact absurd hpos (not_lt.mpr hle)
    rw [hp, hb.ptr_eq x g hp]
  · rcases hmem with hmem | hmem
    · have hmem : .push g ∈ s.codeAt w := mem_codeAt.mpr ⟨⟨a, hmem⟩, congrArg some hgw⟩
      have hheld := (hb.released (hg.cover w) (hg.rep.state_lt w hw) hmem).held
      intro x
      have h₁ := hf.pinned hb x
      have h₂ := (s.view w).conn.ptr_le_ptrs x
      rw [Seat.held] at hheld
      exact Nat.le_zero.mp (show ((s.view w).conn.ov x).ops ≤ 0 by omega)
    · have hmem : .init g ∈ s.codeAt w := mem_codeAt.mpr ⟨⟨a, hmem⟩, congrArg some hgw⟩
      exact (hf.still hb (hg.cover w) (.inr (num_pos hmem rfl))).1

/-- The accept that is outstanding after `PostAccept`. -/
theorem inFlight_pinned_accept : ∃ s : Engine (Fin 1) 1,
    Runs (step 1) (fun s e => s.Fits ∧ e.Io) (start (Fin 1) 1) (.postAccept 0 :: runs 0 13) s ∧
      ((s.sessions 0).ov .recv).ops = 1 ∧
      ((s.sessions 0).ov .recv).sessionPtr = some ((s.view 0).handle 0) := by
  have hexec : (execIf (fun s e => decide (s.Fits ∧ e.Io)) (step 1) (start (Fin 1) 1)
      (.postAccept 0 :: runs 0 13)).map (fun s => ((s.sessions 0).ov .recv).ops) = some 1 := by
    decide +kernel
  obtain ⟨s, hs, hops⟩ := Option.map_eq_some_iff.mp hexec
  have r : Runs (step 1) (fun s e => s.Fits ∧ e.Io) (start (Fin 1) 1) (.postAccept 0 :: runs 0 13) s :=
    Runs.of_execIf (I := fun _ => True) (fun _ _ _ h => of_decide_eq_true h)
      (fun _ _ _ _ _ _ => trivial) trivial hs
  have h := (inFlight_pinned (by decide) r (by decide : 0 < 1)).1 .recv
  exact ⟨s, r, hops, h.2 (by rw [hops]; decide)⟩

end Engine

end IocpServer
