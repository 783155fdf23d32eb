import IocpServer.Server.Good

/-!
# Server — LifeCycle

The states of a session: pending, then connected or not, then disconnecting, then idle.

* `lifeCycle`: in every run, whoever calls `Connect` and `Disconnect` and however the operations
  come out, every slot goes through these states in this order, `Connect` finds it pending and
  `RegisterDisconnect` is called at most once each time, and it becomes idle when its disconnect has
  been processed and nothing holds it any more.
-/

namespace IocpServer

open SessionState

/-- From one state of a session to the next. -/
inductive Next : Nat → Nat → Prop where
  | create : Next kIdle.toNat kPending.toNat
  | connect : Next kPending.toNat kConnected.toNat
  | abandon : Next kPending.toNat kDisconnecting.toNat
  | disconnect : Next kConnected.toNat kDisconnecting.toNat
  | release : Next kDisconnecting.toNat kIdle.toNat

namespace Seat

variable {w : Nat} {v v' : Seat} {a : Act} {is is' : List Instr} {M : Multiset Instr}

/-- What is pushed is disconnecting, its disconnect has been processed, and nothing refers to it. -/
structure Released (v : Seat) (C : Multiset Instr) : Prop where
  state : v.cell.state = kDisconnecting.toNat
  reset : v.life.resets = 1
  ops : (v.conn.ov .disconnect).ops = 0
  count : v.count = 0
  held : v.held C = 0

theorem Base.released {g : Nat} {C : Multiset Instr} (hb : Base w v C) (hcov : Cover C)
    (hlt : v.cell.state < kCnt.toNat) (hg : .push g ∈ C) : v.Released C := by
  obtain ⟨M, rfl⟩ := Multiset.exists_cons_of_mem hg
  have ht := hb.tally
  have hone : num Instr.keeps M = 0 ∧ v.held (.push g ::ₘ M) = 0 := by
    have := ht.kept_once
    simp at this
    omega
  obtain ⟨hops, hdis⟩ := hb.quiet hcov (hone.2.le.trans (Nat.zero_le _))
  have hst : v.cell.state ≠ 0 := by
    intro e
    have := (ht.free_iff.mp e).2
    simp at this
  have hcr : num Instr.creates (.push g ::ₘ M) = 0 := by
    have h₁ := Instr.creates_le M
    have h₂ := Instr.enters_le M
    have h₃ := hone.2
    simp [held] at h₃ ⊢
    omega
  have hent := hb.entered hst hcr
  have href : refs v.entry ≤ v.held (.push g ::ₘ M) := entry_le_held _ rfl
  have hset := Instr.setsState_le (.push g ::ₘ M)
  have hbf := hb.before
  refine ⟨?_, by omega, hops, ht.count_eq.trans hone.2, hone.2⟩
  show v.cell.state = 3
  replace hlt : v.cell.state < 4 := hlt
  omega

/-- One step of a slot takes its session to the next state, or leaves it where it is. -/
theorem Base.next (hb : Base w v (is + M)) (hcov : Cover (is + M)) (hlt : v.cell.state < kCnt.toNat)
    (h : SeatStep w v a is is' v') :
    v'.cell.state = v.cell.state ∨ Next v.cell.state v'.cell.state := by
  cases h with
  | pop h0 =>
    rw [h0]
    exact .inr .create
  | connectSession =>
    rw [hb.connecting (by simp)]
    exact .inr .connect
  | setState =>
    rcases hb.disconnecting (by simp) with e | e
    · rw [e]
      exact .inr .abandon
    · rw [e]
      exact .inr .disconnect
  | push =>
    rw [(hb.released hcov hlt (mem_head _ _ _)).state]
    exact .inr .release
  | _ => exact .inl rfl

/-- `ConnectSession` finds the session pending. -/
theorem Base.connects_step (hb : Base w v (is + M)) (h : SeatStep w v a is is' v') :
    v'.life.connects ≤ v.life.connects ∨
      v.cell.state = kPending.toNat ∧ v'.cell.state = kConnected.toNat := by
  cases h with
  | pop => exact .inl (Nat.zero_le _)
  | connectSession => exact .inr ⟨hb.connecting (by simp), rfl⟩
  | _ => exact .inl (Nat.le_refl _)

/-- A slot is pushed when it is released. -/
theorem Base.pushed_step (hb : Base w v (is + M)) (hcov : Cover (is + M))
    (hlt : v.cell.state < kCnt.toNat) (h : SeatStep w v a is is' v') :
    v'.pushed = v.pushed ∧ (v'.cell.state = kIdle.toNat → v.cell.state = kIdle.toNat) ∨
      v.Released (is + M) ∧ v'.cell.state = kIdle.toNat := by
  cases h with
  | push => exact .inr ⟨hb.released hcov hlt (mem_head _ _ _), rfl⟩
  | pop | connectSession | setState => exact .inl ⟨rfl, fun e => by cases e⟩
  | _ => exact .inl ⟨rfl, id⟩

end Seat

namespace Engine

variable {ι : Type} {N kMaxAccept : Nat} {s s' : Engine ι N} {e : Event ι} {es : List (Event ι)}
  {w : Nat} [DecidableEq ι]

/-- The states that the slot `w` goes through from `s` on. -/
def states (kMaxAccept w : Nat) : Engine ι N → List (Event ι) → List Nat
  | _, [] => []
  | s, e :: es =>
      match s.step kMaxAccept e with
      | none => []
      | some t =>
          (if (t.view w).cell.state = (s.view w).cell.state then [] else [(t.view w).cell.state]) ++
            states kMaxAccept w t es

variable [Fintype ι]

/-- A step leaves the slot alone, or is one of its steps. -/
theorem Good.moved (hN : N < 2 ^ 32) (hg : s.Good) (hf : s.Fits)
    (h : s.step kMaxAccept e = some s') (w : Nat) :
    s'.view w = s.view w ∧ s'.codeAt w = s.codeAt w ∨
      ∃ a is is' M, SeatStep w (s.view w) a is is' (s'.view w) ∧ s.codeAt w = is + M ∧
        s'.codeAt w = is' + M := by
  obtain ⟨hm, hr'⟩ := step_moves hN hg h
  cases hm with
  | slot hw' hs ho ht hc =>
    rename_i x a is is' fs fs'
    obtain ⟨-, ⟨M, hM, hM'⟩, -, hother⟩ := hg.seat hN hf hw' hr' hs ht hc
    by_cases e : w = x
    · subst e
      exact .inr ⟨a, is, is', M, hs, hM, hM'⟩
    · exact .inl ⟨ho w e, hother w e⟩
  | idle ho ht hi hc => exact .inl ⟨ho w, hi.codeAt hc w⟩

theorem Good.next (hN : N < 2 ^ 32) (hg : s.Good) (hf : s.Fits) (hw : w < N)
    (h : s.step kMaxAccept e = some s') :
    (s'.view w).cell.state = (s.view w).cell.state ∨
      Next (s.view w).cell.state (s'.view w).cell.state := by
  rcases hg.moved hN hf h w with ⟨hv, -⟩ | ⟨a, is, is', M, hs, hM, -⟩
  · rw [hv]
    exact .inl rfl
  · have hb := hg.base w hw
    have hcov := hg.cover w
    rw [hM] at hb hcov
    exact hb.next hcov (hg.rep.state_lt w hw) hs

/-- **The states of a slot follow one another.** -/
theorem states_isChain (hN : N < 2 ^ 32) (hw : w < N) {t : Engine ι N} (hg : s.Good)
    (r : Runs (step kMaxAccept) (fun s _ => s.Fits) s es t) :
    List.IsChain Next ((s.view w).cell.state :: states kMaxAccept w s es) := by
  induction es generalizing s with
  | nil => exact .singleton _
  | cons e es ih =>
    obtain ⟨u, hf, hs, r'⟩ := r.uncons rfl
    have hrest := ih (Good.step hN hg hf hs) r'
    rw [states, hs]
    dsimp only
    rcases hg.next hN hf hw hs with heq | hnext
    · rw [if_pos heq, List.nil_append, ← heq]
      exact hrest
    · split
      · rename_i heq
        rw [List.nil_append, ← heq]
        exact hrest
      · exact .cons_cons hnext hrest

/-- **The life cycle of a session.** -/
theorem lifeCycle (hN : N < 2 ^ 32) (hw : w < N)
    (r : Runs (step kMaxAccept) (fun s _ => s.Fits) (start ι N) es s) :
    List.IsChain Next (kIdle.toNat :: states kMaxAccept w (start ι N) es) ∧
    (s.life w).connects ≤ 1 ∧ (s.life w).registers ≤ 1 ∧
    ∀ e s', s.Fits → s.step kMaxAccept e = some s' →
      ((s.life w).connects < (s'.life w).connects →
        (s.view w).cell.state = kPending.toNat ∧ (s'.view w).cell.state = kConnected.toNat) ∧
      (s.pushed w ≠ s'.pushed w ∨
          (s.view w).cell.state ≠ kIdle.toNat ∧ (s'.view w).cell.state = kIdle.toNat →
        (s.view w).Released (s.codeAt w) ∧ (s'.view w).cell.state = kIdle.toNat) := by
  have hg := run_good hN (fun _ _ h => h) r
  have hb := hg.base w hw
  refine ⟨states_isChain hN hw (start_good hN) r, hb.connects_le,
    (Nat.le_add_right _ _).trans hb.registers_le, fun e s' hf hs => ?_⟩
  rcases hg.moved hN hf hs w with ⟨hv, -⟩ | ⟨a, is, is', M, hst, hM, -⟩
  · have h₁ : s'.life w = s.life w := congrArg Seat.life hv
    have h₂ : s'.pushed w = s.pushed w := congrArg Seat.pushed hv
    rw [h₁, h₂, hv]
    exact ⟨fun h => absurd h (lt_irrefl _), fun h => by simp at h⟩
  · have hcov := hg.cover w
    have hlt := hg.rep.state_lt w hw
    rw [hM] at hb hcov ⊢
    refine ⟨fun h => ?_, fun h => ?_⟩
    · exact (hb.connects_step hst).resolve_left (not_le.mpr h)
    · rcases hb.pushed_step hcov hlt hst with ⟨hp, hi⟩ | hrel
      · rcases h with h | ⟨h₁, h₂⟩
        · exact absurd hp.symm h
        · exact absurd (hi h₂) h₁
      · exact hrel

/-- One client is accepted, receives nothing and is gone; the slot is used again. -/
def visit : List (Event (Fin 1)) :=
  .postAccept 0 :: runs 0 13 ++ .accepted 0 :: .dequeue 0 0 .recv true false :: runs 0 20 ++
    .dequeue 0 0 .recv true true :: runs 0 10 ++ .disconnected 0 ::
    .dequeue 0 0 .disconnect true false :: runs 0 6 ++ .dequeue 0 0 .send false false :: runs 0 20

theorem lifeCycle_visit : ∃ s : Engine (Fin 1) 1,
    Runs (step 1) (fun s _ => s.Fits) (start (Fin 1) 1) visit s ∧
      List.IsChain Next (kIdle.toNat :: states 1 0 (start (Fin 1) 1) visit) ∧
      states 1 0 (start (Fin 1) 1) visit = [1, 2, 3, 0, 1] ∧
      (s.life 0).connects ≤ 1 ∧ (s.life 0).registers ≤ 1 := by
  have hexec : (execIf (fun s _ => decide s.Fits) (step 1) (start (Fin 1) 1) visit).isSome := by
    decide +kernel
  obtain ⟨s, hs⟩ := Option.isSome_iff_exists.mp hexec
  have r : Runs (step 1) (fun s _ => s.Fits) (start (Fin 1) 1) visit s :=
    Runs.of_execIf (I := fun _ => True) (fun _ _ _ h => of_decide_eq_true h)
      (fun _ _ _ _ _ _ => trivial) trivial hs
  have h := lifeCycle (by decide) (by decide : 0 < 1) r
  exact ⟨s, r, h.1, by decide +kernel, h.2.1, h.2.2.1⟩

end Engine

end IocpServer
