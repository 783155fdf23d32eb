import IocpServer.Packet.Handler
import IocpServer.Pool.Stale

/-!
# Server — SessionManager

The state of a session as `Server/SessionManager.cpp` reads and writes it, through the pool.

* `staleHandles_act`: none of these calls looks at the generation of the handle it is given.
-/

namespace IocpServer

namespace Server

/-- `ConnectSession`. -/
def connectSession (w : Server) (handle : Nat) : Option Server := do
  let sessionPool ← w.sessionPool.moveToState handle SessionState.kConnected.toNat
  return { w with sessionPool }

/-- `SetState`. -/
def setState (w : Server) (handle : Nat) (newState : SessionState) : Option Server := do
  let sessionPool ← w.sessionPool.moveToState handle newState.toNat
  return { w with sessionPool }

end Server

open SparseSet (Reachable MoveOutcome PushOutcome moveToState_outcome push_outcome)

theorem SparsePool.moveToState_set {α : Type} {N stateCount : Nat} (q : SparsePool α N stateCount)
    (h b : Nat) : (q.moveToState h b).map (·.set) = q.set.moveToState h b := by
  rw [SparsePool.moveToState]
  cases q.set.moveToState h b <;> rfl

theorem Server.connectSession_pool (w : Server) (h : Nat) :
    (w.connectSession h).map (·.sessionPool) =
      w.sessionPool.moveToState h SessionState.kConnected.toNat := by
  rw [Server.connectSession]
  cases w.sessionPool.moveToState h SessionState.kConnected.toNat <;> rfl

theorem Server.setState_pool (w : Server) (h : Nat) (state : SessionState) :
    (w.setState h state).map (·.sessionPool) = w.sessionPool.moveToState h state.toNat := by
  rw [Server.setState]
  cases w.sessionPool.moveToState h state.toNat <;> rfl

/-- **A handle that is not valid acts on its slot.**  On every reachable set, for such a handle `h`:
if the index of `h` is below `N`, then `MoveToState`, whether called on the set, on the pool, or by
`ConnectSession` or `SetState`, and `Push` do what they do for the current handle of that slot, and
leave every other slot's state and generation alone; `MoveToState` keeps all generations, and changes
nothing exactly when the state asked for is invalid or the slot's own, while `Push` always moves the
slot to another generation.  From `N` on, `Push` and `MoveToState` to a valid state access an array
out of range. -/
theorem staleHandles_act {α : Type} {N stateCount : Nat} (hN : N < 2 ^ 32) (hK : 1 ≤ stateCount) :
    (∀ s : SparseSet N stateCount, Reachable s → ∀ h, s.isValid h = false →
      (∀ b, MoveOutcome s h b (s.moveToState h b)) ∧ PushOutcome s h (s.push h)) ∧
    (∀ q : SparsePool α N stateCount, Reachable q.set → ∀ h, q.set.isValid h = false →
      ∀ b, MoveOutcome q.set h b ((q.moveToState h b).map (·.set)) ∧
        ∀ q', q.moveToState h b = some q' → q'.refCount = q.refCount ∧ q'.obj = q.obj) ∧
    ∀ w : Server, Reachable w.sessionPool → ∀ h, w.sessionPool.isValid h = false →
      MoveOutcome w.sessionPool h SessionState.kConnected.toNat
        ((w.connectSession h).map (·.sessionPool)) ∧
      ∀ state : SessionState, MoveOutcome w.sessionPool h state.toNat
        ((w.setState h state).map (·.sessionPool)) := by
  refine ⟨fun s hs h _ => ?_, fun q hq h _ b => ⟨?_, fun q' hq' => ?_⟩, fun w hw h _ => ?_⟩
  · have hr := hs.rep hN hK
    exact ⟨moveToState_outcome hr hN h, push_outcome hr hN hK h⟩
  · rw [SparsePool.moveToState_set]
    exact moveToState_outcome (hq.rep hN hK) hN h b
  · obtain ⟨set, -, e⟩ := Option.bind_eq_some_iff.mp hq'
    cases e
    exact ⟨rfl, rfl⟩
  · have hr := hw.rep (by decide) (by decide)
    constructor
    · rw [Server.connectSession_pool]
      exact moveToState_outcome hr (by decide) h _
    · intro state
      rw [Server.setState_pool]
      exact moveToState_outcome hr (by decide) h _

/-- One slot is popped, pushed and popped again. -/
def reused : List SparseSet.Op := [.pop 1, .push 0, .pop 1]

theorem reused_reachable {s : SparseSet 1 4}
    (hs : exec SparseSet.step (SparseSet.new 1 4) reused = some s) : Reachable s := by
  refine ⟨reused, Runs.of_exec hs fun op hop _ => ?_⟩
  simp only [reused, List.mem_cons, List.not_mem_nil, or_false] at hop
  rcases hop with rfl | rfl | rfl
  · trivial
  · exact (by decide : slotIndex 0 < 1)
  · trivial

/-- The handle of the first pop moves and frees the slot of the second, and `kInvalidHandle` leads
out of the arrays. -/
theorem staleHandle_disturbs :
    ∃ s : SparseSet 1 4, Reachable s ∧ s.isValid 0 = false ∧ s.isValid (2 ^ 32) = true ∧
      (s.cells 0).state = 1 ∧ ((s.moveToState 0 3).map fun t => (t.cells 0).state) = some 3 ∧
      ((s.push 0).map fun t => ((t.cells 0).state, t.isValid (2 ^ 32))) = some (0, false) ∧
      s.isValid kInvalidHandle = false ∧ (s.moveToState kInvalidHandle 3).isNone = true := by
  have hexec : ((exec SparseSet.step (SparseSet.new 1 4) reused).map fun s =>
      ((s.isValid 0, s.isValid (2 ^ 32), (s.cells 0).state),
        (s.moveToState 0 3).map fun t => (t.cells 0).state)) =
      some ((false, true, 1), some 3) := by decide +kernel
  have hpush : ((exec SparseSet.step (SparseSet.new 1 4) reused).map fun s =>
      ((s.push 0).map fun t => ((t.cells 0).state, t.isValid (2 ^ 32)), s.isValid kInvalidHandle,
        (s.moveToState kInvalidHandle 3).isNone)) =
      some (some (0, false), false, true) := by decide +kernel
  obtain ⟨s, hs, e⟩ := Option.map_eq_some_iff.mp hexec
  rw [hs, Option.map_some, Option.some_inj] at hpush
  simp only [Prod.mk.injEq] at e hpush
  obtain ⟨⟨hstale, hvalid, hstate⟩, hmove⟩ := e
  exact ⟨s, reused_reachable hs, hstale, hvalid, hstate, hmove, hpush⟩

theorem staleHandles_act_reused :
    ∃ s : SparseSet 1 4, Reachable s ∧ s.isValid 0 = false ∧
      (∀ b, MoveOutcome s 0 b (s.moveToState 0 b)) ∧ PushOutcome s 0 (s.push 0) := by
  have hexec : ((exec SparseSet.step (SparseSet.new 1 4) reused).map (·.isValid 0)) =
      some false := by decide +kernel
  obtain ⟨s, hs, e⟩ := Option.map_eq_some_iff.mp hexec
  have hr := reused_reachable hs
  have h := (@staleHandles_act Unit 1 4 (by decide) (by decide)).1 s hr 0 e
  exact ⟨s, hr, e, h⟩

end IocpServer
