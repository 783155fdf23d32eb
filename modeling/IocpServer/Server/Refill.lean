import IocpServer.Server.Pending

/-!
# Server — Refill

Whether accepts are posted again.  `PostAccept` leaves its loop when the limit is reached, and also
when there is no free slot: then it lowers the counter it has raised, and does not look again.  The
thread that frees a slot in between finds the limit reached.

* `Refilled`: while a slot is free and the limit is not reached, or is about not to be, some thread
  is on its way to another load of `pendingAccepts_`.
* `accepts_refilled`: as long as no thread finds the limit reached with a slot free and a roll-back
  to come, nothing is left to accept when all are done.
-/

namespace IocpServer

namespace Instr

/-- On the way to another load of `pendingAccepts_` in `PostAccept`. -/
def refills : Instr → Bool
  | .load | .cas _ | .acquire | .init _ | .construct _ | .enter _ | .give _ => true
  | .register _ p | .assign _ p _ | .post _ p => p.ioType == .kAccept
  | _ => false

def rollsBack : Instr → Bool
  | .rollback => true
  | _ => false

/-- Inside `PostAccept`, `DecrementPendingAccepts` or `ReleaseRef`. -/
def inside : Instr → Bool
  | .load | .cas _ | .rollback | .setListener _ | .acquire | .init _ | .construct _ | .enter _
  | .give _ | .countDown _ | .push _ => true
  | .register _ p | .assign _ p _ | .post _ p => p.ioType == .kAccept
  | _ => false

end Instr

attribute [simp] Instr.refills.eq_1 Instr.refills.eq_2 Instr.refills.eq_3 Instr.refills.eq_4
  Instr.refills.eq_5 Instr.refills.eq_6 Instr.refills.eq_7 Instr.refills.eq_8 Instr.refills.eq_9
  Instr.refills.eq_10 Instr.refills.eq_11 Instr.rollsBack.eq_1 Instr.rollsBack.eq_2

theorem Instr.refills_inside {i : Instr} (h : i.refills = true) : i.inside = true := by
  cases i <;> simp [Instr.inside] at h ⊢ <;> exact h

/-- What a step of a slot does to the loops of `PostAccept`. -/
theorem SeatStep.refills {w : Nat} {v v' : Seat} {i : Instr} {o : Outcome} {is is' : List Instr}
    (h : SeatStep w v (.run i o) is is' v') (hgive : is = [.give w] → v.entry ≠ none) :
    (is' ++ i.spawns v o).countP Instr.rollsBack = 0 ∧
      (0 < (is' ++ i.spawns v o).countP Instr.refills ∨
        is.countP Instr.refills = 0 ∧ (∀ p, i.pending p = p) ∧
          (v'.cell.state = 0 → v.cell.state = 0)) := by
  cases h with
  | giveNone he => exact absurd he (hgive rfl)
  | give he => simp [Instr.spawns, he]
  | overflow hp => simp [Instr.spawns, Instr.pending, hp]
  | register | assign =>
    rename_i p _
    by_cases hp : p.ioType = .kAccept <;> simp [Instr.spawns, Instr.pending, countP_last, hp]
  | posted hp ho hl =>
    rename_i p
    cases p <;> simp at hp <;> simp [Instr.spawns, Instr.pending]
  | notPosted hp =>
    rename_i p _
    cases p <;> simp at hp <;> simp [Instr.spawns, Instr.pending, countP_last]
  | dispatched hi =>
    simp [Instr.spawns, Instr.pending, countP_last, hi.count Instr.rollsBack]
  | execute =>
    refine ⟨?_, .inr ⟨rfl, fun _ => rfl, id⟩⟩
    simp only [Instr.spawns]
    split <;> simp
  | _ => simp [Instr.spawns, Instr.pending, countP_last]

theorem SeatStep.starts {w : Nat} {v v' : Seat} {a : Act} {is is' : List Instr}
    (h : SeatStep w v a is is' v') (ha : ∀ i o, a ≠ .run i o) :
    is'.countP Instr.rollsBack = 0 ∧ (0 < is'.countP Instr.refills ∨
      a ≠ .pop ∧ (v'.cell.state = 0 → v.cell.state = 0)) := by
  cases h with
  | pop => exact ⟨rfl, .inl (by simp)⟩
  | lookup | task | accepted | disconnected | dequeue => exact ⟨by simp, .inr ⟨by simp, id⟩⟩
  | _ => exact absurd rfl (ha _ _)

namespace Engine

variable {ι : Type} {N kMaxAccept : Nat} {s s' : Engine ι N} {e : Event ι} {es : List (Event ι)}
  {w : Nat} {a : Act} {is is' fs fs' : List Instr}

/-- A slot of the session pool is `Idle`. -/
def Free (s : Engine ι N) : Prop := ∃ w < N, (s.view w).cell.state = 0

instance (s : Engine ι N) : Decidable s.Free := inferInstanceAs (Decidable (∃ w < N, _ = _))

/-- No thread finds the limit reached while a slot is free and another thread is about to roll
back. -/
def Refills (kMaxAccept : Nat) (s : Engine ι N) : Event ι → Prop
  | .run a _ => (s.code a).head? = some .load → kMaxAccept ≤ s.pendingAccepts → s.Free →
      ∀ b, .rollback ∉ s.code b
  | _ => True

/-- What a step that touches a slot does to the loops of `PostAccept`. -/
theorem Touches.refills (ht : Touches s s' e w a is fs fs')
    (hst : SeatStep w (s.view w) a is is' (s'.view w))
    (hgive : is = [.give w] → (s.view w).entry ≠ none) :
    (is' ++ fs').countP Instr.rollsBack = 0 ∧
      (0 < (is' ++ fs').countP Instr.refills ∨
        (is ++ fs).countP Instr.refills = 0 ∧ s'.pendingAccepts = s.pendingAccepts ∧
          ((s'.view w).cell.state = 0 → (s.view w).cell.state = 0)) := by
  cases ht with
  | run hc hi hp =>
    obtain ⟨hback, h⟩ := hst.refills hgive
    refine ⟨hback, h.imp_right fun ⟨h0, hpend, hfree⟩ => ⟨?_, hp.trans (hpend _), hfree⟩⟩
    rw [List.append_nil, h0]
  | pop hc hp =>
    obtain ⟨hback, hpos | ⟨hne, -⟩⟩ := hst.starts fun _ _ e => by cases e
    · exact ⟨by simpa using hback, .inl (by simpa using hpos)⟩
    · exact absurd rfl hne
  | _ =>
    rename_i hp _
    obtain ⟨hback, h⟩ := hst.starts fun _ _ e => by cases e
    refine ⟨by simpa using hback, h.imp (fun hpos => by simpa using hpos) ?_⟩
    rintro ⟨-, hfree⟩
    exact ⟨rfl, hp, hfree⟩

variable [Fintype ι]

/-- **A free slot is not forgotten.** -/
def Refilled (kMaxAccept : Nat) (s : Engine ι N) : Prop :=
  s.Free → s.pendingAccepts < kMaxAccept ∨ 0 < num Instr.rollsBack s.all →
    0 < num Instr.refills s.all

variable [DecidableEq ι]

/-- **A step forgets no free slot.** -/
theorem Refilled.step (hN : N < 2 ^ 32) (hr : s.Refilled kMaxAccept) (hg : s.Good) (hf : s.Fits)
    (hs : s.Steady) (hre : s.Refills kMaxAccept e) (h : s.step kMaxAccept e = some s') :
    s'.Refilled kMaxAccept := by
  intro hfree hlack
  obtain ⟨hm, hr'⟩ := step_moves hN hg h
  cases hm with
  | slot hw hst ho htch hc =>
    rename_i w act is is' fs fs'
    obtain ⟨-, ⟨M, hM, -⟩, -, -⟩ := hg.seat hN hf hw hr' hst htch hc
    have hgive : is = [.give w] → (s.view w).entry ≠ none := by
      rintro rfl
      exact Seat.Flight.given (hM ▸ hs.flight w hw) (hM ▸ hg.base w hw)
    obtain ⟨hback, h⟩ := htch.refills hst hgive
    obtain ⟨R, hall, hall'⟩ := hc.all
    rw [hall', num_add, num_coe, hback] at hlack
    rw [hall', num_add, num_coe]
    rcases h with hpos | ⟨h0, hp, hstate⟩
    · omega
    · -- the slot was free before, and what takes care of it goes on
      have hbefore : s.Free := by
        obtain ⟨x, hx, hx0⟩ := hfree
        by_cases e : x = w
        · subst e
          exact ⟨x, hx, hstate hx0⟩
        · exact ⟨x, hx, ho x e ▸ hx0⟩
      have := hr hbefore (by rw [hall, num_add]; omega)
      rw [hall, num_add, num_coe, h0] at this
      omega
  | idle ho ht hi hc =>
    have hbefore : s.Free := by
      obtain ⟨x, hx, hx0⟩ := hfree
      exact ⟨x, hx, ho x ▸ hx0⟩
    have hkept := hr hbefore
    obtain ⟨R, hall, hall'⟩ := hc.all
    rw [hall, num_add, num_add, num_coe, num_coe] at hkept
    rw [hall', num_add, num_coe] at hlack ⊢
    cases hi with
    | full hcode hle hp =>
      -- nobody is about to roll back
      have hnone : num Instr.rollsBack s.all = 0 := by
        refine num_eq_zero.mpr fun i hi => ?_
        obtain ⟨b, hb⟩ := mem_all.mp hi
        cases i with
        | rollback => exact absurd hb (hre (by rw [hcode]; rfl) hle hbefore b)
        | _ => rfl
      rw [hall, num_add] at hnone
      simp at hlack hnone
      omega
    | empty hcode hnone =>
      obtain ⟨x, hx, hx0⟩ := hbefore
      exact absurd hx0 (hnone x hx)
    | postAccept | load | cas | retry => simp
    | rollback | call | lookup =>
      simp at hkept hlack ⊢
      omega

/-- The first call of `PostAccept` sees to it, and no step forgets. -/
theorem run_refilled (hN : N < 2 ^ 32) (hlt : kMaxAccept < 2 ^ 64)
    (r : Runs (step kMaxAccept)
      (fun s e => s.Fits ∧ s.Tame e ∧ s.Posts e ∧ s.Refills kMaxAccept e) (start ι N) es s)
    {b : ι} (hb : .postAccept b ∈ es) : s.Refilled kMaxAccept := by
  have hinv := r.invariant_events (I := fun es s =>
    (s.Good ∧ s.Steady ∧ s.Counted kMaxAccept) ∧
      ((∃ b, .postAccept b ∈ es) → s.Refilled kMaxAccept))
    ⟨⟨start_good hN, start_steady, start_counted⟩, by simp⟩ ?_
  · exact hinv.2 ⟨b, hb⟩
  · intro es t e u h hte hu
    obtain ⟨⟨hg, hs, hk⟩, hr⟩ := h
    obtain ⟨hf, ht, hp, hre⟩ := hte
    refine ⟨⟨hg.step hN hf hu, hs.step hN hg hf ht hu, hk.step hN hlt hg hf hs hp hu⟩, fun h => ?_⟩
    obtain ⟨b, hb⟩ := h
    rcases List.mem_append.mp hb with hb | hb
    · exact (hr ⟨b, hb⟩).step hN hg hf hs hre hu
    · obtain rfl := (List.mem_singleton.mp hb).symm
      intro _ _
      simp only [Engine.step] at hu
      split at hu <;> cases hu
      refine num_pos (i := .load) (mem_all.mpr ⟨b, ?_⟩) rfl
      rw [putCode_self]
      exact List.mem_singleton_self _

/-- **Accepts are posted again**, in every run in which no thread finds the limit reached while a slot
is free and a roll-back to come: when all threads are done, the limit is reached, or no slot is
free. -/
theorem accepts_refilled (hN : N < 2 ^ 32) (hk : kMaxAccept < 2 ^ 64)
    (r : Runs (step kMaxAccept)
      (fun s e => s.Fits ∧ s.Tame e ∧ s.Posts e ∧ s.Refills kMaxAccept e) (start ι N) es s)
    {b : ι} (hb : .postAccept b ∈ es) (hout : ∀ a, ∀ i ∈ s.code a, i.inside = false) :
    s.pendingAccepts = kMaxAccept ∨ ∀ w < N, (s.view w).cell.state ≠ SessionState.kIdle.toNat := by
  have hlimit := (pendingAccepts_exact hN hk
    (r.mono fun _ _ h => ⟨h.1, h.2.1, h.2.2.1⟩)).2
  have hrefilled := run_refilled hN hk r hb
  have hnone : num Instr.refills s.all = 0 := by
    refine num_eq_zero.mpr fun i hi => ?_
    obtain ⟨a, ha⟩ := mem_all.mp hi
    by_contra h
    have := hout a i ha
    rw [Instr.refills_inside (by simpa using h)] at this
    cases this
  by_contra hnot
  obtain ⟨hne, hfree⟩ := not_or.mp hnot
  have : s.Free := by
    by_contra h
    exact hfree fun w hw h0 => h ⟨w, hw, h0⟩
  have := hrefilled this (.inl (by omega))
  omega

instance (s : Engine ι N) (e : Event ι) : Decidable (s.Refills kMaxAccept e) :=
  match e with
  | .run a _ => inferInstanceAs (Decidable ((s.code a).head? = some .load →
      kMaxAccept ≤ s.pendingAccepts → s.Free → ∀ b, .rollback ∉ s.code b))
  | .postAccept _ | .call .. | .task _ | .accepted _ | .disconnected _ | .dequeue .. => .isTrue trivial

omit [Fintype ι] [DecidableEq ι] in
/-- A client is accepted in the first slot, and an accept is posted in the second. -/
def refilled (a : ι) : List (Event ι) :=
  .postAccept a :: runs a 13 ++ .accepted 0 :: .dequeue a 0 .recv true false :: runs a 29

theorem accepts_refilled_second : ∃ s : Engine (Fin 2) 2,
    Runs (step 1) (fun s e => s.Fits ∧ s.Tame e ∧ s.Posts e ∧ s.Refills 1 e) (start (Fin 2) 2)
        (refilled 0) s ∧
      (s.view 1).cell.state = SessionState.kPending.toNat ∧
      (s.pendingAccepts = 1 ∨ ∀ w < 2, (s.view w).cell.state ≠ SessionState.kIdle.toNat) := by
  have hexec : (execIf (fun s e => decide (s.Fits ∧ s.Tame e ∧ s.Posts e ∧ s.Refills 1 e)) (step 1)
      (start (Fin 2) 2) (refilled 0)).map (fun s => decide ((s.view 1).cell.state = 1 ∧
        ∀ a, ∀ i ∈ s.code a, i.inside = false)) = some true := by
    decide +kernel
  obtain ⟨s, hs, heq⟩ := Option.map_eq_some_iff.mp hexec
  obtain ⟨hstate, hout⟩ := of_decide_eq_true heq
  have r : Runs (step 1) (fun s e => s.Fits ∧ s.Tame e ∧ s.Posts e ∧ s.Refills 1 e) (start (Fin 2) 2)
      (refilled 0) s :=
    Runs.of_execIf (I := fun _ => True) (fun _ _ _ h => of_decide_eq_true h)
      (fun _ _ _ _ _ _ => trivial) trivial hs
  exact ⟨s, r, hstate, accepts_refilled (by decide) (by decide) r (b := 0)
    (List.mem_append_left _ List.mem_cons_self) hout⟩

omit [Fintype ι] [DecidableEq ι] in
/-- While a second client is accepted, with no slot left, the first is gone. -/
def forgotten (a b : ι) : List (Event ι) :=
  refilled a ++ .accepted 1 :: .dequeue b 1 .recv true false :: runs b 5 ++
    .dequeue a 0 .recv true true :: runs a 10 ++ .disconnected 0 ::
    .dequeue a 0 .disconnect true false :: runs a 6 ++ .dequeue a 0 .send false false :: runs a 8 ++
    runs b 15

/-- **A free slot is forgotten**: the thread that frees it finds the limit reached, and the thread that
has raised the counter rolls back. -/
theorem slot_forgotten : ∃ s : Engine (Fin 2) 2,
    Runs (step 1) (fun s e => s.Fits ∧ s.Tame e ∧ s.Posts e) (start (Fin 2) 2) (forgotten 0 1) s ∧
      (∀ a, s.code a = []) ∧ s.pendingAccepts = 0 ∧
      (s.view 0).cell.state = SessionState.kIdle.toNat := by
  have hexec : (execIf (fun s e => decide (s.Fits ∧ s.Tame e ∧ s.Posts e)) (step 1)
      (start (Fin 2) 2) (forgotten 0 1)).map (fun s => decide ((∀ a, s.code a = []) ∧
        s.pendingAccepts = 0 ∧ (s.view 0).cell.state = SessionState.kIdle.toNat)) = some true := by
    decide +kernel
  obtain ⟨s, hs, heq⟩ := Option.map_eq_some_iff.mp hexec
  refine ⟨s, ?_, of_decide_eq_true heq⟩
  exact Runs.of_execIf (I := fun _ => True) (fun _ _ _ h => of_decide_eq_true h)
    (fun _ _ _ _ _ _ => trivial) trivial hs

end Engine

end IocpServer
