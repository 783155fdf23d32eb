import IocpServer.Pool.SlotMap

/-!
# Pool — Stale

What `MoveToState` and `Push` do with a handle that is no longer valid.  Neither looks at the
generation: below `N` a handle acts as the current handle of its slot (`moveToState_index`,
`push_index`), and from `N` on it is an access out of range (`moveToState_outside`,
`push_outside`).
-/

namespace IocpServer.SparseSet

variable {N stateCount : Nat} {s : SparseSet N stateCount} {h h' b : Nat}

theorem moveToState_index (e : slotIndex h = slotIndex h') (s : SparseSet N stateCount) (b : Nat) :
    s.moveToState h b = s.moveToState h' b := by
  have hinc : ∀ t : SparseSet N stateCount, t.incrementState h = t.incrementState h' := by
    intro t
    simp only [incrementState, e]
  have hdec : ∀ t : SparseSet N stateCount, t.decrementState h = t.decrementState h' := by
    intro t
    simp only [decrementState, e]
  have hraise : (raiseBody h b : SparseSet N stateCount → _) = raiseBody h' b := by
    funext t
    simp only [raiseBody, e, hinc]
  have hlower : (lowerBody h b : SparseSet N stateCount → _) = lowerBody h' b := by
    funext t
    simp only [lowerBody, e, hdec]
  simp only [moveToState, moveToStateWithin, hraise, hlower]

theorem push_index (e : slotIndex h = slotIndex h') (s : SparseSet N stateCount) :
    s.push h = s.push h' := by
  simp only [push, e, moveToState_index e]

/-- From `N` on, a valid state leads to an access out of range. -/
theorem moveToState_outside (hi : N ≤ slotIndex h) (hb : b < stateCount) :
    s.moveToState h b = none := by
  obtain ⟨k, rfl⟩ : ∃ k, stateCount = k + 1 := ⟨stateCount - 1, by omega⟩
  have hbody : raiseBody h b s = none := by
    rw [raiseBody, rd, if_neg hi.not_gt]
    rfl
  simp only [moveToState, moveToStateWithin, if_neg hb.not_ge, Loop.run, hbody]
  rfl

theorem push_outside (hi : N ≤ slotIndex h) (hK : 1 ≤ stateCount) : s.push h = none := by
  simp only [push, moveToState_outside hi hK]
  rfl

/-- A slot that is in the state already stays as it is. -/
theorem moveToState_same (hi : slotIndex h < N) (hb : b < stateCount)
    (he : (s.cells (slotIndex h)).state = b) : s.moveToState h b = some s := by
  obtain ⟨k, rfl⟩ : ∃ k, stateCount = k + 1 := ⟨stateCount - 1, by omega⟩
  have hst : (s.sparse (slotIndex h)).state = b := he
  have hraise : raiseBody h b s = some (.leave s) := by
    simp only [raiseBody, rd_of_lt hi, Option.bind_eq_bind, Option.bind_some, hst, lt_irrefl,
      if_false]
    rfl
  have hlower : lowerBody h b s = some (.leave s) := by
    simp only [lowerBody, rd_of_lt hi, Option.bind_eq_bind, Option.bind_some, hst, lt_irrefl,
      if_false]
    rfl
  simp only [moveToState, moveToStateWithin, if_neg hb.not_ge, Loop.run_leave hraise,
    Loop.run_leave hlower, Option.bind_eq_bind, Option.bind_some]

/-- `MoveToState` changes nothing exactly when the state is invalid or the slot's own. -/
theorem moveToState_eq_self (hr : Rep s) (hN : N < 2 ^ 32) (hi : slotIndex h < N) :
    s.moveToState h b = some s ↔ stateCount ≤ b ∨ (s.cells (slotIndex h)).state = b := by
  constructor
  · intro hs
    rcases Nat.lt_or_ge b stateCount with hb | hb
    · obtain ⟨t, ht, -, hcells⟩ := moveToState_spec hr hN hi hb
      rw [hs] at ht
      cases ht
      exact .inr (by rw [hcells, upd_same, Cell.move_state])
    · exact .inl hb
  · intro h
    rcases Nat.lt_or_ge b stateCount with hb | hb
    · exact moveToState_same hi hb (h.resolve_left hb.not_ge)
    · exact moveToState_invalid hb

/-- The generation `Push` leaves behind is another one. -/
theorem Cell.recycle_ne (c : Cell) : c.recycle.generation ≠ c.generation := by
  rw [recycle_generation, u32]
  omega

/-- What `MoveToState` to the state `b` comes to for a handle `h`, valid or not: it moves the slot
of `h` as the slot's own handle would, and touches nothing else; it is a fault when there is no
such slot. -/
def MoveOutcome (s : SparseSet N stateCount) (h b : Nat) : Option (SparseSet N stateCount) → Prop
  | none => N ≤ slotIndex h ∧ b < stateCount
  | some t =>
      (stateCount ≤ b ∨ slotIndex h < N ∧ s.moveToState (s.handle (slotIndex h)) b = some t) ∧
      (∀ x, (t.cells x).generation = (s.cells x).generation) ∧
      (∀ x ≠ slotIndex h, t.cells x = s.cells x) ∧
      (b < stateCount → (t.cells (slotIndex h)).state = b) ∧
      (t = s ↔ stateCount ≤ b ∨ (s.cells (slotIndex h)).state = b)

/-- What `Push` comes to. -/
def PushOutcome (s : SparseSet N stateCount) (h : Nat) : Option (SparseSet N stateCount) → Prop
  | none => N ≤ slotIndex h
  | some t =>
      slotIndex h < N ∧ s.push (s.handle (slotIndex h)) = some t ∧
      (∀ x ≠ slotIndex h, t.cells x = s.cells x) ∧
      (t.cells (slotIndex h)).state = 0 ∧
      (t.cells (slotIndex h)).generation ≠ (s.cells (slotIndex h)).generation

theorem moveToState_outcome (hr : Rep s) (hN : N < 2 ^ 32) (h b : Nat) :
    MoveOutcome s h b (s.moveToState h b) := by
  rcases Nat.lt_or_ge b stateCount with hb | hb
  · rcases Nat.lt_or_ge (slotIndex h) N with hi | hi
    · obtain ⟨t, ht, -, hcells⟩ := moveToState_spec hr hN hi hb
      have hself := moveToState_eq_self (b := b) hr hN hi
      rw [ht]
      refine ⟨.inr ⟨hi, ?_⟩, fun x => ?_, fun x hx => ?_, fun _ => ?_, ?_⟩
      · rw [← ht]
        exact moveToState_index (hr.slotIndex_handle hN hi) s b
      · rw [hcells]
        by_cases e : x = slotIndex h
        · rw [e, upd_same, Cell.move_generation]
        · rw [upd_other e]
      · rw [hcells, upd_other hx]
      · rw [hcells, upd_same, Cell.move_state]
      · rw [← hself, ht, Option.some_inj]
    · rw [moveToState_outside hi hb]
      exact ⟨hi, hb⟩
  · rw [moveToState_invalid hb]
    exact ⟨.inl hb, fun _ => rfl, fun _ _ => rfl, fun hlt => absurd hlt hb.not_gt,
      fun _ => .inl hb, fun _ => rfl⟩

theorem push_outcome (hr : Rep s) (hN : N < 2 ^ 32) (hK : 1 ≤ stateCount) (h : Nat) :
    PushOutcome s h (s.push h) := by
  rcases Nat.lt_or_ge (slotIndex h) N with hi | hi
  · obtain ⟨t, ht, -, hcells⟩ := push_spec hr hN hK hi
    rw [ht]
    refine ⟨hi, ?_, fun x hx => ?_, ?_, ?_⟩
    · rw [← ht]
      exact push_index (hr.slotIndex_handle hN hi) s
    · rw [hcells, upd_other hx]
    · rw [hcells, upd_same, Cell.recycle_state]
    · rw [hcells, upd_same]
      exact Cell.recycle_ne _
  · rw [push_outside hi hK]
    exact hi

end IocpServer.SparseSet
