import IocpServer.Pool.Stale
import IocpServer.Pool.Writes

/-!
# Pool — Mover

The calls that a `SparsePool` makes inside `cs_`, store by store.

* `Mover`: where the thread inside `cs_` is in its call.  `enter` is the call up to its first store,
  `advance` the next store, or the next round of `MoveToState`.
* `Holding`: the stores still to come of the round lead to a set with the invariant, and let the
  buckets that the rest of the call spares grow at most.
* `rest`: the set when the call returns.  `enter_rest` and `advance_rest`: it is what the call leads
  to as one step.
-/

namespace IocpServer.SparseSet

variable {N stateCount : Nat}

/-- The calls inside `cs_`: `SparsePool::MoveToState`, the `Pop` of `Acquire` and the `Push` of
`ReleaseRef`. -/
inductive Inside where
  | moveToState (handle newState : Nat)
  | acquire (state : Nat)
  | release (handle : Nat)
  deriving DecidableEq, Repr

/-- The call on the set as one step. -/
def Inside.op : Inside → Op
  | .moveToState handle newState => .moveToState handle newState
  | .acquire state => .pop state
  | .release handle => .push handle

/-- A thread inside `cs_`: the `state_` of its slot when it last loaded it, the state asked for,
whether `Push` is to raise the generation, and the stores to come of `IncrementState` or
`DecrementState`. -/
structure Mover where
  handle : Nat
  state : Nat
  target : Nat
  recycle : Bool
  todo : List Write
  deriving DecidableEq, Repr

/-- The slot that the call is about. -/
def Mover.who (m : Mover) : Nat := slotIndex m.handle

/-- A call inside `cs_` up to its first store; `none` in the result when there is none. -/
def enter (s : SparseSet N stateCount) : Inside → Option (Option Mover)
  | .moveToState handle newState =>
      if stateCount ≤ newState then
        some none
      else do
        let slot ← rd N s.sparse (slotIndex handle)
        return some ⟨handle, slot.state, newState, false, []⟩
  | .acquire state =>
      if stateCount ≤ state then
        some none
      else do
        let c₀ ← rd (stateCount + 1) s.cursor 0
        let c₁ ← rd (stateCount + 1) s.cursor 1
        if c₀ = c₁ then
          return none
        else
          let handle ← s.getHandle (← rd N s.dense c₀)
          let slot ← rd N s.sparse (slotIndex handle)
          return some ⟨handle, slot.state, state, false, []⟩
  | .release handle => do
      let slot ← rd N s.sparse (slotIndex handle)
      return some ⟨handle, slot.state, 0, true, []⟩

/-- `sparse_[who].generation_++`. -/
def recycled (s : SparseSet N stateCount) (handle : Nat) : Option (SparseSet N stateCount) := do
  let slot ← rd N s.sparse (slotIndex handle)
  s.store (.generation (slotIndex handle) (u32 (slot.generation + 1)))

/-- The next step inside `cs_`: a store of the round, or the condition of the loop once it is over.
The call leaves `cs_` where the mover returned is `none`. -/
def advance (s : SparseSet N stateCount) (m : Mover) :
    Option (SparseSet N stateCount × Option Mover) :=
  match m.todo with
  | x :: todo => do
      let t ← s.store x
      return (t, some { m with todo })
  | [] => do
      let slot ← rd N s.sparse m.who
      if slot.state < m.target then
        let todo ← s.incrementWrites m.handle
        return (s, some { m with state := slot.state, todo })
      else if m.target < slot.state then
        let todo ← s.decrementWrites m.handle
        return (s, some { m with state := slot.state, todo })
      else if m.recycle then
        let t ← s.recycled m.handle
        return (t, some { m with state := slot.state, recycle := false })
      else
        return (s, none)

/-- The set when the call returns. -/
def rest (s : SparseSet N stateCount) (m : Mover) : Option (SparseSet N stateCount) := do
  let t ← exec store s m.todo
  let t ← t.moveToState m.handle m.target
  if m.recycle then t.recycled m.handle else return t

/-- How many states the slot is away from the one asked for. -/
def Mover.ahead (m : Mover) (s : SparseSet N stateCount) : Nat :=
  m.target - (s.cells m.who).state + ((s.cells m.who).state - m.target)

/-- How many steps the call may still take: the stores of the round, and seven steps for each state
that is then left to pass. -/
def weight (s : SparseSet N stateCount) (m : Mover) : Nat :=
  m.todo.length + m.recycle.toNat + 7 * ((exec store s m.todo).map m.ahead).getD 0

/-- The rest of the call takes its slot neither out of state `b` nor past it, and does not change its
handle there. -/
def Mover.Spares (m : Mover) (b : Nat) : Prop :=
  m.state < b ∧ m.target < b ∨ b < m.state ∧ b < m.target ∨ m.target = b ∧ m.recycle = false

instance (m : Mover) (b : Nat) : Decidable (m.Spares b) :=
  inferInstanceAs (Decidable (_ ∨ _ ∨ _))

/-- `b` lies between `a` and `c`. -/
def Between (a b c : Nat) : Prop := a ≤ b ∧ b ≤ c ∨ c ≤ b ∧ b ≤ a

/-- **What holds of a thread inside `cs_`**: its round ends in a set with the invariant, in which its
slot is on the way from the state it loaded to the one asked for. -/
structure Holding (s : SparseSet N stateCount) (m : Mover) : Prop where
  who_lt : m.who < N
  target_lt : m.target < stateCount
  settles : ∃ t, exec store s m.todo = some t ∧ Rep t ∧
    Between m.state (t.cells m.who).state m.target
  moves : ∀ x ∈ m.todo, x.Moves m.who
  settling : ∀ b < stateCount, m.Spares b → Settling b s m.todo

/-! ### The generation -/

/-- Raising the generation of a slot keeps the invariant. -/
theorem recycled_spec {s : SparseSet N stateCount} (h : Rep s) {handle : Nat}
    (hw : slotIndex handle < N) :
    ∃ t, s.recycled handle = some t ∧ Rep t ∧
      (∀ w, (t.cells w).state = (s.cells w).state) ∧
      ∀ b < stateCount, b ≠ (s.cells (slotIndex handle)).state → Grows b s t := by
  set w := slotIndex handle with hwdef
  set x : Write := .generation w (u32 ((s.sparse w).generation + 1)) with hx
  have hs : s.store x = some (s.put x) := by
    simp only [hx, store, put, rd_of_lt hw, wr_of_lt hw, Option.bind_eq_bind, Option.bind_some]
    rfl
  have hstate := Write.Keeps.state_eq (x := x) trivial hs
  have hpos : (s.put x).pos = s.pos := by
    funext y
    by_cases e : y = w
    · subst e
      simp only [pos, hx, put, upd_same]
    · simp only [pos, hx, put, upd_other e]
  refine ⟨s.put x, ?_, ⟨by rw [hpos]; exact h.paired, h.cuts, fun y hy => ?_, fun y hy => ?_,
    fun y hy => ?_, fun y hy => ?_⟩, hstate, fun b hb hne => ?_⟩
  · simp only [recycled, ← hwdef, rd_of_lt hw, Option.bind_eq_bind, Option.bind_some]
    exact hs
  · rw [hstate]
    exact h.state_lt y hy
  · rw [hstate, hpos]
    exact h.le_pos y hy
  · rw [hstate, hpos]
    exact h.pos_lt y hy
  · rw [hx, put_generation_cells]
    split
    · exact u32_lt _
    · exact h.generation_lt y hy
  · refine Write.Widens.grows (x := x) (fun i hi e => hne ?_) hs
    rw [h.spans_iff hb (h.lt_of_spans hb hi), e] at hi
    exact hi.symm

theorem push_eq (s : SparseSet N stateCount) (handle : Nat) :
    s.push handle = (s.moveToState handle 0).bind (recycled · handle) := by
  simp only [push, recycled, Option.bind_eq_bind]
  refine Option.bind_congr fun t _ => ?_
  cases hr : rd N t.sparse (slotIndex handle) with
  | none => rfl
  | some slot =>
    simp only [Option.bind_some, store, hr, Option.bind_eq_bind]

/-! ### The loops of `MoveToState` -/

theorem moveToState_raise {s t : SparseSet N stateCount} (h : Rep s) (hN : N < 2 ^ 32)
    {handle b : Nat} (hw : slotIndex handle < N) (hb : b < stateCount)
    (hlt : (s.cells (slotIndex handle)).state < b) (ht : s.incrementState handle = some t) :
    s.moveToState handle b = t.moveToState handle b := by
  obtain ⟨k, rfl⟩ : ∃ k, stateCount = k + 1 := ⟨stateCount - 1, by omega⟩
  have hst : (s.sparse (slotIndex handle)).state < b := hlt
  have hbody : raiseBody handle b s = some (.again t) := by
    simp only [raiseBody, rd_of_lt hw, Option.bind_eq_bind, Option.bind_some, if_pos hst, ht]
    rfl
  obtain ⟨u, hu, -⟩ := raise_spec h hN hw hb le_rfl
  have hu' := hu
  rw [Loop.run_again hbody] at hu'
  simp only [moveToState, moveToStateWithin, if_neg hb.not_ge, hu, Loop.run_mono hu' k.le_succ]

theorem moveToState_lower {s t : SparseSet N stateCount} (h : Rep s) (hN : N < 2 ^ 32)
    {handle b : Nat} (hw : slotIndex handle < N)
    (hlt : b < (s.cells (slotIndex handle)).state) (ht : s.decrementState handle = some t) :
    s.moveToState handle b = t.moveToState handle b := by
  have hK := h.state_lt _ hw
  obtain ⟨k, rfl⟩ : ∃ k, stateCount = k + 1 := ⟨stateCount - 1, by omega⟩
  obtain ⟨t', ht', -, hcells⟩ := decrementState_spec h hN hw (by omega)
  rw [ht] at ht'
  cases ht'
  have hst : ¬ (s.sparse (slotIndex handle)).state < b := not_lt.mpr hlt.le
  have hst' : ¬ (t.sparse (slotIndex handle)).state < b := by
    have e : (t.cells (slotIndex handle)).state = (s.cells (slotIndex handle)).state - 1 := by
      rw [hcells, upd_same, Cell.move_state]
    show ¬ (t.cells (slotIndex handle)).state < b
    omega
  have hleave : ∀ u : SparseSet N (k + 1), ¬ (u.sparse (slotIndex handle)).state < b →
      Loop.run (raiseBody handle b) (k + 1) u = some u := by
    intro u hu
    refine Loop.run_leave ?_ k
    simp only [raiseBody, rd_of_lt hw, Option.bind_eq_bind, Option.bind_some, if_neg hu]
    rfl
  have hbody : lowerBody handle b s = some (.again t) := by
    have hlt' : b < (s.sparse (slotIndex handle)).state := hlt
    simp only [lowerBody, rd_of_lt hw, Option.bind_eq_bind, Option.bind_some, if_pos hlt', ht]
    rfl
  obtain ⟨u, hu, -⟩ := lower_spec h hN hw (.refl s _) hlt.le (le_refl (k + 1))
  have hu' := hu
  rw [Loop.run_again hbody] at hu'
  have hb : ¬ k + 1 ≤ b := by omega
  simp only [moveToState, moveToStateWithin, if_neg hb, hleave s hst, hleave t hst',
    Option.bind_eq_bind, Option.bind_some, hu, Loop.run_mono hu' k.le_succ]

/-! ### The steps inside `cs_` -/

theorem Holding.of_rep {s : SparseSet N stateCount} (h : Rep s) {handle b : Nat} {r : Bool}
    (hw : slotIndex handle < N) (hb : b < stateCount) :
    Holding s ⟨handle, (s.cells (slotIndex handle)).state, b, r, []⟩ := by
  refine ⟨hw, hb, ⟨s, rfl, h, ?_⟩, List.forall_mem_nil _, fun a ha _ => h.full ha⟩
  rcases Nat.le_total (s.cells (slotIndex handle)).state b with hle | hle
  · exact .inl ⟨le_rfl, hle⟩
  · exact .inr ⟨hle, le_rfl⟩

/-- A call inside `cs_` has nothing to do, or what is left of it is the whole of it. -/
theorem enter_rest {s : SparseSet N stateCount} (h : Rep s) (hN : N < 2 ^ 32) (hK : 1 ≤ stateCount)
    {call : Inside} (hop : call.op.InRange N) :
    (s.enter call = some none ∧ s.step call.op = some s) ∨
      ∃ m, s.enter call = some (some m) ∧ Holding s m ∧ s.rest m = s.step call.op := by
  cases call with
  | moveToState handle b =>
    by_cases hb : stateCount ≤ b
    · exact .inl ⟨by rw [enter, if_pos hb], moveToState_invalid hb⟩
    · refine .inr ⟨_, ?_, Holding.of_rep (r := false) h hop (not_le.mp hb), ?_⟩
      · rw [enter, if_neg hb]
        simp only [rd_of_lt hop, Option.bind_eq_bind, Option.bind_some]
        rfl
      · simp [rest, step, Inside.op]
  | acquire b =>
    by_cases hb : stateCount ≤ b
    · exact .inl ⟨by rw [enter, if_pos hb], by rw [Inside.op, step, pop_invalid hb]; rfl⟩
    · have h₀ : 0 < stateCount + 1 := by omega
      have h₁ : 1 < stateCount + 1 := by omega
      by_cases e : s.cursor 0 = s.cursor 1
      · refine .inl ⟨?_, ?_⟩
        · rw [enter, if_neg hb]
          simp only [rd_of_lt h₀, rd_of_lt h₁, Option.bind_eq_bind, Option.bind_some, if_pos e]
          rfl
        · simp only [Inside.op, step, pop, if_neg hb, rd_of_lt h₀, rd_of_lt h₁,
            Option.bind_eq_bind, Option.bind_some, if_pos e]
          rfl
      · have hz := h.cuts.zero
        have hm := h.cuts.mono 0 hK
        have hlast := h.cuts.le_last (b := 1) hK
        have hpos : s.cursor 0 < N := by omega
        have hwN := h.paired.dense_lt _ hpos
        have hidx := h.slotIndex_handle hN hwN
        rw [← hidx] at hwN
        refine .inr ⟨_, ?_, Holding.of_rep (r := false) h hwN (not_le.mp hb), ?_⟩
        · rw [enter, if_neg hb]
          simp only [rd_of_lt h₀, rd_of_lt h₁, Option.bind_eq_bind, Option.bind_some, if_neg e,
            rd_of_lt hpos, getHandle_eq s (h.paired.dense_lt _ hpos), rd_of_lt hwN]
          rfl
        · simp only [Inside.op, step, pop, if_neg hb, rd_of_lt h₀, rd_of_lt h₁,
            Option.bind_eq_bind, Option.bind_some, if_neg e, rd_of_lt hpos,
            getHandle_eq s (h.paired.dense_lt _ hpos), rest, exec_nil]
          cases s.moveToState (s.handle (s.dense (s.cursor 0))) b <;> rfl
  | release handle =>
    refine .inr ⟨_, ?_, Holding.of_rep (r := true) h hop hK, ?_⟩
    · rw [enter]
      simp only [rd_of_lt hop, Option.bind_eq_bind, Option.bind_some]
      rfl
    · simp [rest, step, Inside.op, push_eq]

theorem Mover.Spares.ne {m : Mover} {b c : Nat} (h : m.Spares b)
    (hc : Between m.state c m.target) (hne : c ≠ m.target ∨ m.recycle = true) : b ≠ c := by
  simp only [Mover.Spares, Between] at h hc
  rcases hne with hne | hne
  · omega
  · rw [hne] at h
    simp only [Bool.true_eq_false, and_false, or_false] at h
    omega

/-- What is spared stays spared. -/
theorem Mover.Spares.next {m : Mover} {b c : Nat} {r : Bool} {todo : List Write} (h : m.Spares b)
    (hc : Between m.state c m.target) (hr : m.recycle = false → r = false) :
    Mover.Spares ⟨m.handle, c, m.target, r, todo⟩ b := by
  simp only [Mover.Spares, Between] at h hc ⊢
  rcases h with h | h | ⟨h, h'⟩
  · left
    omega
  · right; left
    omega
  · exact .inr (.inr ⟨h, hr h'⟩)

/-- **One step inside `cs_`** is in range.  It ends the call, or leaves less of the same to be done,
and lets the buckets that the rest of the call spares grow at most. -/
theorem advance_rest {s : SparseSet N stateCount} (hN : N < 2 ^ 32) {m : Mover}
    (h : Holding s m) :
    (s.advance m = some (s, none) ∧ Rep s ∧ s.rest m = some s) ∨
      ∃ t n, s.advance m = some (t, some n) ∧ Holding t n ∧ t.rest n = s.rest m ∧
        t.weight n < s.weight m ∧ ∀ b < stateCount, m.Spares b → n.Spares b ∧ Grows b s t := by
  obtain ⟨handle, c, target, r, todo⟩ := m
  obtain ⟨u, hu, hrep, hbet⟩ := h.settles
  have hw : slotIndex handle < N := h.who_lt
  cases todo with
  | cons x todo =>
    obtain ⟨t, ht, hu⟩ := Option.bind_eq_some_iff.mp hu
    refine .inr ⟨t, ⟨handle, c, target, r, todo⟩, ?_, ⟨h.who_lt, h.target_lt, ⟨u, hu, hrep, hbet⟩,
      fun y hy => h.moves y (List.mem_cons_of_mem x hy), fun b hb hsp => ?_⟩, ?_,
      ?_, fun b hb hsp => ⟨hsp, (h.settling b hb hsp).2.1.grows ht⟩⟩
    · simp only [advance, ht, Option.bind_eq_bind, Option.bind_some]
      rfl
    · exact (h.settling b hb hsp).2.2 t ht
    · simp only [rest, exec_cons, ht, Option.bind_some]
    · simp only [weight, exec_cons, ht, hu, Option.bind_some, Option.map_some, Option.getD_some,
        List.length_cons, Mover.ahead, Mover.who]
      omega
  | nil =>
    cases hu
    have hst : (s.sparse (slotIndex handle)).state = (s.cells (slotIndex handle)).state := rfl
    have hrd : rd N s.sparse (slotIndex handle) = some (s.sparse (slotIndex handle)) :=
      rd_of_lt hw _
    have hwho : ∀ {a : Nat} {r : Bool} {todo : List Write},
        Mover.who ⟨handle, a, target, r, todo⟩ = slotIndex handle := rfl
    rw [hwho] at hbet
    by_cases hlt : (s.cells (slotIndex handle)).state < target
    · -- another round upwards
      have hlast : (s.cells (slotIndex handle)).state + 1 < stateCount :=
        lt_of_le_of_lt hlt h.target_lt
      obtain ⟨writes, hws, hexec, hlen, hmoves, hset⟩ := incrementWrites_spec hrep hN hw hlast
      obtain ⟨t, ht, htrep, hcells⟩ := incrementState_spec hrep hN hw hlast
      refine .inr ⟨s, ⟨handle, _, target, r, writes⟩, ?_, ⟨h.who_lt, h.target_lt,
        ⟨t, hexec.trans ht, htrep, ?_⟩, hmoves, fun b hb hsp => hset b hb ?_⟩, ?_,
        ?_, fun b hb hsp => ⟨hsp.next hbet id, .refl b s⟩⟩
      · simp only [advance, hwho, hrd, Option.bind_eq_bind, Option.bind_some, hst, if_pos hlt, hws]
        rfl
      · rw [hwho, hcells, upd_same, Cell.move_state]
        exact .inl ⟨Nat.le_succ _, hlt⟩
      · exact hsp.ne (.inl ⟨le_rfl, hlt.le⟩) (.inl hlt.ne)
      · simp only [rest, exec_nil, hexec, ht, Option.bind_eq_bind, Option.bind_some,
          moveToState_raise hrep hN hw h.target_lt hlt ht]
      · simp only [weight, exec_nil, hexec, ht, Option.map_some, Option.getD_some, Mover.ahead,
          hwho, hcells, upd_same, Cell.move_state, hlen, List.length_nil]
        omega
    by_cases hgt : target < (s.cells (slotIndex handle)).state
    · -- another round downwards
      obtain ⟨writes, hws, hexec, hlen, hmoves, hset⟩ := decrementWrites_spec hrep hN hw (by omega)
      obtain ⟨t, ht, htrep, hcells⟩ := decrementState_spec hrep hN hw (by omega)
      refine .inr ⟨s, ⟨handle, _, target, r, writes⟩, ?_, ⟨h.who_lt, h.target_lt,
        ⟨t, hexec.trans ht, htrep, ?_⟩, hmoves, fun b hb hsp => hset b hb ?_⟩, ?_,
        ?_, fun b hb hsp => ⟨hsp.next hbet id, .refl b s⟩⟩
      · simp only [advance, hwho, hrd, Option.bind_eq_bind, Option.bind_some, hst, if_neg hlt,
          if_pos hgt, hws]
        rfl
      · rw [hwho, hcells, upd_same, Cell.move_state]
        exact .inr ⟨Nat.le_sub_one_of_lt hgt, Nat.sub_le _ _⟩
      · exact hsp.ne (.inr ⟨hgt.le, le_rfl⟩) (.inl hgt.ne')
      · simp only [rest, exec_nil, hexec, ht, Option.bind_eq_bind, Option.bind_some,
          moveToState_lower hrep hN hw hgt ht]
      · simp only [weight, exec_nil, hexec, ht, Option.map_some, Option.getD_some, Mover.ahead,
          hwho, hcells, upd_same, Cell.move_state, hlen, List.length_nil]
        omega
    -- the slot is where the call wants it
    have heq : (s.cells (slotIndex handle)).state = target := by omega
    have hsame : s.moveToState handle target = some s := moveToState_same hw h.target_lt heq
    cases r with
    | true =>
      obtain ⟨t, ht, htrep, hstate, hgrows⟩ := recycled_spec hrep hw
      have hsame' : t.moveToState handle target = some t :=
        moveToState_same hw h.target_lt ((hstate _).trans heq)
      refine .inr ⟨t, ⟨handle, _, target, false, []⟩, ?_, ⟨h.who_lt, h.target_lt,
        ⟨t, rfl, htrep, ?_⟩, List.forall_mem_nil _, fun b hb _ => htrep.full hb⟩, ?_,
        ?_, fun b hb hsp => ⟨hsp.next hbet (by intro e; cases e), hgrows b hb (hsp.ne hbet (.inr rfl))⟩⟩
      · simp only [advance, hwho, hrd, Option.bind_eq_bind, Option.bind_some, hst, if_neg hlt,
          if_neg hgt, if_true, ht]
        rfl
      · rw [hwho, hstate, heq]
        exact .inl ⟨le_rfl, le_rfl⟩
      · simp [rest, hsame, hsame', ht]
      · simp only [weight, exec_nil, Option.map_some, Option.getD_some, Mover.ahead, hwho, hstate,
          List.length_nil, Bool.toNat_true, Bool.toNat_false]
        omega
    | false =>
      refine .inl ⟨?_, hrep, ?_⟩
      · simp only [advance, hwho, hrd, Option.bind_eq_bind, Option.bind_some, hst, if_neg hlt,
          if_neg hgt]
        rfl
      · simp [rest, hsame]

end IocpServer.SparseSet
