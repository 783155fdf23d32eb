import IocpServer.Pool.Partition
import Mathlib.Data.List.Nodup

/-!
# Pool — SlotMap

What a `SparseSet` is for: a map from slots to a state and a generation, in which a call changes
one slot.  The three arrays implement it (`sparseSet_refines`): every call on every reachable set
ends, changes the map as its abstract counterpart does and leaves every other slot alone; `Pop`
finds a slot in state `0` when there is one; and `GetIndicesInState` lists a state exactly.
-/

namespace IocpServer

/-- A map that agrees with `f` wherever it is defined on the list. -/
theorem mapM_eq_map {α β : Type} {f : α → Option β} {g : α → β} :
    ∀ {l : List α}, (∀ x ∈ l, f x = some (g x)) → l.mapM f = some (l.map g)
  | [], _ => rfl
  | x :: l, h => by
      rw [List.mapM_cons, h x List.mem_cons_self,
        mapM_eq_map fun y hy => h y (List.mem_cons_of_mem _ hy)]
      rfl

namespace SparseSet

variable {N stateCount : Nat}

/-- The slots by state and generation. -/
abbrev SlotMap := Nat → Cell

/-- `MapStep N stateCount m op m'`: the map `m` may become `m'` under the call `op`. -/
def MapStep (N stateCount : Nat) (m : SlotMap) : Op → SlotMap → Prop
  | .pop b, m' =>
      (b < stateCount ∧ ∃ w < N, (m w).state = 0 ∧ m' = upd m w ((m w).move b)) ∨
      (stateCount ≤ b ∨ ∀ w < N, (m w).state ≠ 0) ∧ m' = m
  | .push handle, m' => m' = upd m (slotIndex handle) (m (slotIndex handle)).recycle
  | .moveToState handle b, m' =>
      m' = if b < stateCount then upd m (slotIndex handle) ((m (slotIndex handle)).move b) else m
  | .incrementState handle, m' =>
      m' = if (m (slotIndex handle)).state + 1 < stateCount then
        upd m (slotIndex handle) ((m (slotIndex handle)).move ((m (slotIndex handle)).state + 1))
      else m
  | .decrementState handle, m' =>
      m' = if 0 < (m (slotIndex handle)).state then
        upd m (slotIndex handle) ((m (slotIndex handle)).move ((m (slotIndex handle)).state - 1))
      else m

/-- A set some sequence of calls on slots below `N` leads to. -/
def Reachable (s : SparseSet N stateCount) : Prop :=
  ∃ ops, Runs step (fun _ op => op.InRange N) (new N stateCount) ops s

theorem Reachable.rep {s : SparseSet N stateCount} (hs : Reachable s) (hN : N < 2 ^ 32)
    (hK : 1 ≤ stateCount) : Rep s := by
  obtain ⟨ops, r⟩ := hs
  refine r.invariant (new_rep hN hK) fun a op b ha hop hb => ?_
  obtain ⟨b', hb', hrep⟩ := step_rep ha hN hK hop
  rw [hb] at hb'
  cases hb'
  exact hrep

/-- **The simulation.**  A call on the arrays is a call on the map. -/
theorem step_simulates {s : SparseSet N stateCount} (h : Rep s) (hN : N < 2 ^ 32)
    (hK : 1 ≤ stateCount) {op : Op} (hop : op.InRange N) :
    ∃ s', s.step op = some s' ∧ MapStep N stateCount s.cells op s'.cells := by
  cases op with
  | pop b =>
      by_cases hb : b < stateCount
      · rcases pop_spec h hN hb with ⟨w, s', hw, h0, hp, -, hcells⟩ | ⟨hp, hne⟩
        · exact ⟨s', by rw [step, hp]; rfl, .inl ⟨hb, w, hw, h0, hcells⟩⟩
        · exact ⟨s, by rw [step, hp]; rfl, .inr ⟨.inr hne, rfl⟩⟩
      · exact ⟨s, by rw [step, pop_invalid (not_lt.mp hb)]; rfl, .inr ⟨.inl (not_lt.mp hb), rfl⟩⟩
  | push handle =>
      obtain ⟨s', hs', -, hcells⟩ := push_spec h hN hK hop
      exact ⟨s', hs', hcells⟩
  | moveToState handle b =>
      by_cases hb : b < stateCount
      · obtain ⟨s', hs', -, hcells⟩ := moveToState_spec h hN hop hb
        exact ⟨s', hs', by rw [MapStep, if_pos hb]; exact hcells⟩
      · exact ⟨s, moveToState_invalid (not_lt.mp hb), by rw [MapStep, if_neg hb]⟩
  | incrementState handle =>
      by_cases hlt : (s.cells (slotIndex handle)).state + 1 < stateCount
      · obtain ⟨s', hs', -, hcells⟩ := incrementState_spec h hN hop hlt
        exact ⟨s', hs', by rw [MapStep, if_pos hlt]; exact hcells⟩
      · exact ⟨s, incrementState_last hop (not_lt.mp hlt), by rw [MapStep, if_neg hlt]⟩
  | decrementState handle =>
      by_cases hlt : 0 < (s.cells (slotIndex handle)).state
      · obtain ⟨s', hs', -, hcells⟩ := decrementState_spec h hN hop hlt
        exact ⟨s', hs', by rw [MapStep, if_pos hlt]; exact hcells⟩
      · exact ⟨s, decrementState_first hop (by omega), by rw [MapStep, if_neg hlt]⟩

/-- A call on the map changes only the slot it names; `Pop` changes only a slot in state `0`. -/
theorem MapStep.frame {m m' : SlotMap} {op : Op} (h : MapStep N stateCount m op m') :
    ∃ w, ∀ x ≠ w, m' x = m x := by
  cases op with
  | pop b =>
      rcases h with ⟨-, w, -, -, rfl⟩ | ⟨-, rfl⟩
      · exact ⟨w, fun x hx => upd_other hx _ _⟩
      · exact ⟨0, fun _ _ => rfl⟩
  | push handle => subst h; exact ⟨slotIndex handle, fun x hx => upd_other hx _ _⟩
  | moveToState handle b | incrementState handle | decrementState handle =>
      refine ⟨slotIndex handle, fun x hx => ?_⟩
      rw [MapStep] at h
      rw [h]
      split
      · exact upd_other hx _ _
      · rfl

/-! ### Listing a state -/

/-- `GetIndicesInState` lists the handles at the positions of the bucket. -/
theorem getIndicesInState_eq {s : SparseSet N stateCount} (h : Rep s) {b : Nat}
    (hb : b < stateCount) :
    s.getIndicesInState b =
      some ((List.range' (s.cursor b) (s.cursor (b + 1) - s.cursor b)).map
        fun i => s.handle (s.dense i)) := by
  have hN : s.cursor (b + 1) ≤ N := h.cuts.le_last hb
  simp only [getIndicesInState, if_neg hb.not_ge, rd_of_lt (show b < stateCount + 1 by omega),
    rd_of_lt (show b + 1 < stateCount + 1 by omega), Option.bind_eq_bind, Option.bind_some]
  refine mapM_eq_map fun i hi => ?_
  have hiN : i < N := by
    rw [List.mem_range'_1] at hi
    omega
  rw [rd_of_lt hiN, Option.bind_some, getHandle_eq s (h.paired.dense_lt i hiN)]

/-- **`GetIndicesInState` is exact**: it returns the handle of every slot in the state, once, and
nothing else. -/
theorem getIndicesInState_spec {s : SparseSet N stateCount} (h : Rep s) (hN : N < 2 ^ 32) {b : Nat}
    (hb : b < stateCount) :
    ∃ l, s.getIndicesInState b = some l ∧ l.Nodup ∧
      ∀ x, x ∈ l ↔ ∃ w < N, (s.cells w).state = b ∧ x = s.handle w := by
  have hbN : s.cursor (b + 1) ≤ N := h.cuts.le_last hb
  refine ⟨_, getIndicesInState_eq h hb, ?_, fun x => ?_⟩
  · refine List.Nodup.map_on (fun i hi j hj e => ?_) List.nodup_range'
    rw [List.mem_range'_1] at hi hj
    have hi' : i < N := by omega
    have hj' : j < N := by omega
    have e' := congrArg slotIndex e
    rw [h.slotIndex_handle hN (h.paired.dense_lt i hi'),
      h.slotIndex_handle hN (h.paired.dense_lt j hj')] at e'
    rw [← h.paired.pos_dense i hi', e', h.paired.pos_dense j hj']
  · simp only [List.mem_map, List.mem_range'_1]
    constructor
    · rintro ⟨i, ⟨h₁, h₂⟩, rfl⟩
      have hi : i < N := by omega
      have hp := h.paired.pos_dense i hi
      exact ⟨s.dense i, h.paired.dense_lt i hi,
        h.state_of_pos (h.paired.dense_lt i hi) hb (by omega) (by omega), rfl⟩
    · rintro ⟨w, hw, rfl, rfl⟩
      have h₁ := h.le_pos w hw
      have h₂ := h.pos_lt w hw
      exact ⟨s.pos w, by omega, by rw [h.paired.dense_pos w hw]⟩

/-! ### The refinement -/

/-- **`SparseSet` refines the map from slots to states and generations.**  On every reachable
set, and for slot indices below `N`: `MoveToState` ends with any fuel from `stateCount` on, sets
exactly the state of its slot to a valid state and does nothing for an invalid one; `Push` sets
exactly its slot to state `0` and the next generation; `Pop` to a valid state moves exactly one
slot out of state `0` and returns its current handle, or returns `kInvalidHandle`, and changes
nothing, exactly when state `0` is empty; no call alters two slots; and `GetIndicesInState` lists
the current handles of the slots in a state, each once. -/
theorem sparseSet_refines (hN : N < 2 ^ 32) (hK : 1 ≤ stateCount) {s : SparseSet N stateCount}
    (hs : Reachable s) :
    (∀ handle b, slotIndex handle < N → b < stateCount → ∃ s',
      (∀ fuel, stateCount ≤ fuel → s.moveToStateWithin fuel handle b = some s') ∧
      s'.cells = upd s.cells (slotIndex handle) ((s.cells (slotIndex handle)).move b)) ∧
    (∀ fuel handle b, stateCount ≤ b → s.moveToStateWithin fuel handle b = some s) ∧
    (∀ handle, slotIndex handle < N → ∃ s', s.push handle = some s' ∧
      s'.cells = upd s.cells (slotIndex handle)
        ⟨0, ((s.cells (slotIndex handle)).generation + 1) % 2 ^ 32⟩) ∧
    (∀ b < stateCount, ∃ s' r, s.pop b = some (s', r) ∧
      (r = kInvalidHandle ↔ ∀ w < N, (s.cells w).state ≠ 0) ∧ (r = kInvalidHandle → s' = s) ∧
      (r ≠ kInvalidHandle → ∃ w < N, (s.cells w).state = 0 ∧ s.getHandle w = some r ∧
        s'.cells = upd s.cells w ((s.cells w).move b))) ∧
    (∀ op : Op, op.InRange N → ∃ s', s.step op = some s' ∧
      MapStep N stateCount s.cells op s'.cells ∧ ∃ w, ∀ x ≠ w, s'.cells x = s.cells x) ∧
    ∀ b < stateCount, ∃ l, s.getIndicesInState b = some l ∧ l.Nodup ∧
      ∀ x, x ∈ l ↔ ∃ w < N, (s.cells w).state = b ∧ s.getHandle w = some x := by
  have h := hs.rep hN hK
  refine ⟨fun handle b hw hb => ?_, fun fuel handle b hb => if_pos hb, fun handle hw => ?_,
    fun b hb => ?_, fun op hop => ?_, fun b hb => ?_⟩
  · obtain ⟨s', hs', -, hcells⟩ := moveToState_spec h hN hw hb
    exact ⟨s', fun fuel hf => (moveToStateWithin_eq h hN hw hf).trans hs', hcells⟩
  · obtain ⟨s', hs', -, hcells⟩ := push_spec h hN hK hw
    exact ⟨s', hs', hcells⟩
  · rcases pop_spec h hN hb with ⟨w, s', hw, h0, hp, -, hcells⟩ | ⟨hp, hne⟩
    · have hv := h.handle_ne_invalid hN hw
      exact ⟨s', s.handle w, hp, ⟨fun e => absurd e hv, fun hne => absurd h0 (hne w hw)⟩,
        fun e => absurd e hv, fun _ => ⟨w, hw, h0, getHandle_eq s hw, hcells⟩⟩
    · exact ⟨s, kInvalidHandle, hp, ⟨fun _ => hne, fun _ => rfl⟩, fun _ => rfl,
        fun e => absurd rfl e⟩
  · obtain ⟨s', hs', hstep⟩ := step_simulates h hN hK hop
    exact ⟨s', hs', hstep, hstep.frame⟩
  · obtain ⟨l, hl, hnd, hmem⟩ := getIndicesInState_spec h hN hb
    refine ⟨l, hl, hnd, fun x => (hmem x).trans ?_⟩
    refine exists_congr fun w => and_congr_right fun hw => and_congr_right fun _ => ?_
    rw [getHandle_eq s hw, Option.some_inj, eq_comm]

/-- Ten slots, three states, two of the slots taken. -/
theorem sparseSet_refines_two_pops :
    ∃ s : SparseSet 10 3, exec step (new 10 3) [.pop 1, .pop 2] = some s ∧
      (∀ handle b, slotIndex handle < 10 → b < 3 → ∃ s',
        (∀ fuel, 3 ≤ fuel → s.moveToStateWithin fuel handle b = some s') ∧
        s'.cells = upd s.cells (slotIndex handle) ((s.cells (slotIndex handle)).move b)) ∧
      ∀ b < 3, ∃ l, s.getIndicesInState b = some l ∧ l.Nodup ∧
        ∀ x, x ∈ l ↔ ∃ w < 10, (s.cells w).state = b ∧ s.getHandle w = some x := by
  obtain ⟨s, hs, -⟩ := exec_rep (by decide) (by decide) [.pop 1, .pop 2]
    (new_rep (by decide) (by decide) : Rep (new 10 3)) (by simp [Op.InRange])
  have h := sparseSet_refines (by decide) (by decide)
    ⟨_, Runs.of_exec hs (by simp [Op.InRange])⟩
  exact ⟨s, hs, h.1, h.2.2.2.2.2⟩

end SparseSet

end IocpServer
