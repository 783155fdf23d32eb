import IocpServer.Pool.Partition
import IocpServer.Support.Runs
import Mathlib.Data.Finset.Card
import Mathlib.Data.Finset.Range
import Mathlib.Data.List.Nodup

/-!
# Pool — Handles

A `SparseSet` together with what its callers know: the handles they hold, every handle `Pop` has
returned so far, and how often each slot has been pushed.

* `handles_unique`: as long as no slot is pushed `2 ^ 32` times, no handle is returned twice, and a
  handle is valid exactly while it is held.
-/

namespace IocpServer

theorem packHandle_inj {g g' w w' : Nat} (hg : g < 2 ^ 32) (hg' : g' < 2 ^ 32) (hw : w < 2 ^ 32)
    (hw' : w' < 2 ^ 32) (e : packHandle g w = packHandle g' w') : g = g' ∧ w = w' := by
  constructor
  · rw [← slotGeneration_packHandle hg hw, e, slotGeneration_packHandle hg' hw']
  · rw [← slotIndex_packHandle hg hw, e, slotIndex_packHandle hg' hw']

/-- A set and its callers: `held` are the handles popped and not pushed since, `issued` those ever
popped, in order, and `pushed` counts the pushes of each slot. -/
structure Holding (N stateCount : Nat) where
  set : SparseSet N stateCount
  held : Finset Nat
  issued : List Nat
  pushed : Nat → Nat

namespace Holding

open SparseSet (Op)

variable {N stateCount : Nat}

/-- A new set. -/
def start (N stateCount : Nat) : Holding N stateCount := ⟨.new N stateCount, ∅, [], fun _ => 0⟩

def step (s : Holding N stateCount) : Op → Option (Holding N stateCount)
  | .pop b => do
      let (set, handle) ← s.set.pop b
      if handle = kInvalidHandle then
        return { s with set }
      else
        return { s with set, held := insert handle s.held, issued := s.issued ++ [handle] }
  | .push handle => do
      let set ← s.set.push handle
      return { s with
        set, held := s.held.erase handle,
        pushed := upd s.pushed (slotIndex handle) (s.pushed (slotIndex handle) + 1) }
  | op => do
      let set ← s.set.step op
      return { s with set }

/-- The calls considered: handles are popped to states other than `0`, and only held ones are moved
or pushed; no slot is pushed `2 ^ 32` times. -/
def Legit (s : Holding N stateCount) : Op → Prop
  | .pop b => 1 ≤ b ∧ b < stateCount
  | .moveToState handle b => handle ∈ s.held ∧ 1 ≤ b
  | .push handle => handle ∈ s.held ∧ s.pushed (slotIndex handle) + 1 < 2 ^ 32
  | .incrementState _ | .decrementState _ => False

/-- What a slot's generation and state say of the handles issued for it. -/
structure Owned (s : Holding N stateCount) : Prop where
  rep : s.set.Rep
  held_iff : ∀ h, h ∈ s.held ↔ ∃ w < N, (s.set.cells w).state ≠ 0 ∧ h = s.set.handle w
  turn : ∀ w < N, (s.set.cells w).generation = s.pushed w ∧ s.pushed w < 2 ^ 32
  issued_le : ∀ h ∈ s.issued, ∃ w < N, ∃ g < 2 ^ 32, h = packHandle g w ∧
    (g < (s.set.cells w).generation ∨ g = (s.set.cells w).generation ∧ (s.set.cells w).state ≠ 0)
  held_issued : ∀ h ∈ s.held, h ∈ s.issued
  nodup : s.issued.Nodup

variable {s t : Holding N stateCount} {ops : List Op}

instance (s : Holding N stateCount) : (op : Op) → Decidable (Legit s op)
  | .pop b => inferInstanceAs (Decidable (1 ≤ b ∧ b < stateCount))
  | .moveToState handle b => inferInstanceAs (Decidable (handle ∈ s.held ∧ 1 ≤ b))
  | .push handle =>
      inferInstanceAs (Decidable (handle ∈ s.held ∧ s.pushed (slotIndex handle) + 1 < 2 ^ 32))
  | .incrementState _ | .decrementState _ => inferInstanceAs (Decidable False)

theorem start_owned (hN : N < 2 ^ 32) (hK : 1 ≤ stateCount) : Owned (start N stateCount) where
  rep := SparseSet.new_rep hN hK
  held_iff h := by
    constructor
    · intro hh
      cases hh
    · rintro ⟨w, -, hne, -⟩
      exact absurd rfl hne
  turn w _ := ⟨rfl, Nat.two_pow_pos 32⟩
  issued_le h hh := by cases hh
  held_issued h hh := by cases hh
  nodup := List.nodup_nil

/-- The handle of a slot in state `0` is yet to be issued. -/
theorem Owned.fresh (ho : Owned s) (hN : N < 2 ^ 32) {w : Nat} (hw : w < N)
    (h0 : (s.set.cells w).state = 0) : s.set.handle w ∉ s.issued := by
  intro hmem
  obtain ⟨v, hv, g, hg, e, hle⟩ := ho.issued_le _ hmem
  obtain ⟨rfl, rfl⟩ := packHandle_inj (ho.rep.generation_lt w hw) hg (hw.trans hN) (hv.trans hN) e
  rcases hle with hlt | ⟨-, hne⟩
  · exact absurd hlt (lt_irrefl _)
  · exact hne h0

/-- `Pop` issues the handle of a free slot, or there is none. -/
theorem pop_owned (ho : Owned s) (hN : N < 2 ^ 32) {b : Nat} (hb1 : 1 ≤ b) (hb : b < stateCount) :
    ∃ t, s.step (.pop b) = some t ∧ Owned t := by
  rcases SparseSet.pop_spec ho.rep hN hb with ⟨w, set, hw, h0, hp, hrep, hcells⟩ | ⟨hp, -⟩
  · have hne : s.set.handle w ≠ kInvalidHandle := ho.rep.handle_ne_invalid hN hw
    have hhandle := SparseSet.handle_move hcells
    have hgen : ∀ x, (set.cells x).generation = (s.set.cells x).generation := by
      intro x
      rw [hcells]
      by_cases e : x = w
      · rw [e, upd_same, SparseSet.Cell.move_generation]
      · rw [upd_other e]
    have hstate : (set.cells w).state ≠ 0 := by
      rw [hcells, upd_same, SparseSet.Cell.move_state]
      exact Nat.one_le_iff_ne_zero.mp hb1
    have hkeep : ∀ x ≠ w, (set.cells x).state = (s.set.cells x).state := by
      intro x hx
      rw [hcells, upd_other hx]
    refine ⟨⟨set, insert (s.set.handle w) s.held, s.issued ++ [s.set.handle w], s.pushed⟩, ?_,
      hrep, fun h => ?_, fun x hx => ?_, fun h hh => ?_, fun h hh => ?_, ?_⟩
    · simp only [step, hp, Option.bind_eq_bind, Option.bind_some, if_neg hne]
      rfl
    · rw [Finset.mem_insert, ho.held_iff]
      constructor
      · rintro (rfl | ⟨x, hx, hs, rfl⟩)
        · exact ⟨w, hw, hstate, (hhandle w).symm⟩
        · have hxw : x ≠ w := fun e => hs (e ▸ h0)
          exact ⟨x, hx, by rwa [hkeep x hxw], (hhandle x).symm⟩
      · rintro ⟨x, hx, hs, rfl⟩
        rw [hhandle]
        by_cases e : x = w
        · exact .inl (congrArg s.set.handle e)
        · exact .inr ⟨x, hx, by rwa [← hkeep x e], rfl⟩
    · rw [hgen]
      exact ho.turn x hx
    · rw [List.mem_append, List.mem_singleton] at hh
      rcases hh with hh | rfl
      · obtain ⟨x, hx, g, hg, rfl, hle⟩ := ho.issued_le h hh
        refine ⟨x, hx, g, hg, rfl, ?_⟩
        rw [hgen]
        refine hle.imp_right fun ⟨e, hs⟩ => ⟨e, ?_⟩
        rwa [hkeep x fun e => hs (e ▸ h0)]
      · exact ⟨w, hw, _, ho.rep.generation_lt w hw, rfl, .inr ⟨(hgen w).symm, hstate⟩⟩
    · rw [List.mem_append, List.mem_singleton]
      rcases Finset.mem_insert.mp hh with e | hh
      · exact .inr e
      · exact .inl (ho.held_issued h hh)
    · rw [List.nodup_append]
      refine ⟨ho.nodup, List.nodup_singleton _, fun a ha b hb e => ?_⟩
      rw [List.mem_singleton] at hb
      exact ho.fresh hN hw h0 (hb ▸ e ▸ ha)
  · refine ⟨s, ?_, ho⟩
    simp only [step, hp, Option.bind_eq_bind, Option.bind_some, if_true]
    rfl

/-- A held handle stays held when its slot moves to another state than `0`. -/
theorem moveToState_owned (ho : Owned s) (hN : N < 2 ^ 32) {handle b : Nat} (hh : handle ∈ s.held)
    (hb1 : 1 ≤ b) : ∃ t, s.step (.moveToState handle b) = some t ∧ Owned t := by
  obtain ⟨w, hw, hs, rfl⟩ := (ho.held_iff handle).mp hh
  have hidx : slotIndex (s.set.handle w) = w := ho.rep.slotIndex_handle hN hw
  by_cases hb : b < stateCount
  · obtain ⟨set, hset, hrep, hcells⟩ := SparseSet.moveToState_spec ho.rep hN (hidx.symm ▸ hw) hb
    rw [hidx] at hcells
    have hhandle := SparseSet.handle_move hcells
    have hgen : ∀ x, (set.cells x).generation = (s.set.cells x).generation := by
      intro x
      rw [hcells]
      by_cases e : x = w
      · rw [e, upd_same, SparseSet.Cell.move_generation]
      · rw [upd_other e]
    have hbusy : ∀ x, (set.cells x).state ≠ 0 ↔ (s.set.cells x).state ≠ 0 := by
      intro x
      rw [hcells]
      by_cases e : x = w
      · rw [e, upd_same, SparseSet.Cell.move_state]
        exact ⟨fun _ => hs, fun _ => Nat.one_le_iff_ne_zero.mp hb1⟩
      · rw [upd_other e]
    refine ⟨⟨set, s.held, s.issued, s.pushed⟩, ?_, hrep, fun h => ?_, fun x hx => ?_, fun h hh => ?_,
      ho.held_issued, ho.nodup⟩
    · simp only [step, SparseSet.step, hset, Option.bind_eq_bind, Option.bind_some]
      rfl
    · refine (ho.held_iff h).trans (exists_congr fun x => and_congr_right fun _ => ?_)
      rw [hbusy, hhandle]
    · rw [hgen]
      exact ho.turn x hx
    · obtain ⟨x, hx, g, hg, rfl, hle⟩ := ho.issued_le h hh
      refine ⟨x, hx, g, hg, rfl, ?_⟩
      rw [hgen, hbusy]
      exact hle
  · refine ⟨s, ?_, ho⟩
    simp only [step, SparseSet.step, SparseSet.moveToState_invalid (not_lt.mp hb),
      Option.bind_eq_bind, Option.bind_some]
    rfl

/-- A pushed handle is behind its slot's generation. -/
theorem push_owned (ho : Owned s) (hN : N < 2 ^ 32) (hK : 1 ≤ stateCount) {handle : Nat}
    (hh : handle ∈ s.held) (hp : s.pushed (slotIndex handle) + 1 < 2 ^ 32) :
    ∃ t, s.step (.push handle) = some t ∧ Owned t := by
  obtain ⟨w, hw, hs, rfl⟩ := (ho.held_iff handle).mp hh
  have hidx : slotIndex (s.set.handle w) = w := ho.rep.slotIndex_handle hN hw
  obtain ⟨set, hset, hrep, hcells⟩ := SparseSet.push_spec ho.rep hN hK (hidx.symm ▸ hw)
  rw [hidx] at hcells hp
  obtain ⟨hturn, hlt⟩ := ho.turn w hw
  have hother : ∀ x ≠ w, set.cells x = s.set.cells x := by
    intro x hx
    rw [hcells, upd_other hx]
  have hstate : (set.cells w).state = 0 := by rw [hcells, upd_same, SparseSet.Cell.recycle_state]
  have hgen : (set.cells w).generation = (s.set.cells w).generation + 1 := by
    rw [hcells, upd_same, SparseSet.Cell.recycle_generation, hturn, u32_of_lt hp]
  refine ⟨⟨set, s.held.erase (s.set.handle w), s.issued, upd s.pushed w (s.pushed w + 1)⟩, ?_, hrep,
    fun h => ?_, fun x hx => ?_, fun h hh => ?_, fun h hh => ?_, ho.nodup⟩
  · simp only [step, hset, hidx, Option.bind_eq_bind, Option.bind_some]
    rfl
  · rw [Finset.mem_erase, ho.held_iff]
    constructor
    · rintro ⟨hne, x, hx, hxs, rfl⟩
      have e : x ≠ w := fun e => hne (congrArg s.set.handle e)
      exact ⟨x, hx, by rwa [hother x e], (SparseSet.handle_other hcells e).symm⟩
    · rintro ⟨x, hx, hxs, rfl⟩
      have e : x ≠ w := fun e => hxs (e ▸ hstate)
      rw [SparseSet.handle_other hcells e]
      refine ⟨fun he => e ?_, x, hx, by rwa [← hother x e], rfl⟩
      rw [← ho.rep.slotIndex_handle hN hx, he, hidx]
  · dsimp only
    by_cases e : x = w
    · rw [e, hgen, upd_same, hturn]
      exact ⟨rfl, hp⟩
    · rw [hother x e, upd_other e]
      exact ho.turn x hx
  · obtain ⟨x, hx, g, hg, rfl, hle⟩ := ho.issued_le h hh
    refine ⟨x, hx, g, hg, rfl, ?_⟩
    by_cases e : x = w
    · subst e
      left
      show g < (set.cells x).generation
      rw [hgen]
      rcases hle with h | ⟨h, -⟩
      · exact h.trans (Nat.lt_succ_self _)
      · exact h ▸ Nat.lt_succ_self _
    · rw [hother x e]
      exact hle
  · exact ho.held_issued h (Finset.mem_of_mem_erase hh)

theorem step_owned (ho : Owned s) (hN : N < 2 ^ 32) (hK : 1 ≤ stateCount) {op : Op}
    (hl : Legit s op) : ∃ t, s.step op = some t ∧ Owned t := by
  cases op with
  | pop b => exact pop_owned ho hN hl.1 hl.2
  | push handle => exact push_owned ho hN hK hl.1 hl.2
  | moveToState handle b => exact moveToState_owned ho hN hl.1 hl.2
  | incrementState | decrementState => exact absurd hl id

/-- The held handles are the handles of the slots in a state other than `0`. -/
theorem Owned.held_eq (ho : Owned s) :
    s.held = ((Finset.range N).filter fun w => (s.set.cells w).state ≠ 0).image s.set.handle := by
  ext h
  rw [ho.held_iff, Finset.mem_image]
  constructor
  · rintro ⟨w, hw, hs, rfl⟩
    exact ⟨w, Finset.mem_filter.mpr ⟨Finset.mem_range.mpr hw, hs⟩, rfl⟩
  · rintro ⟨w, hw, rfl⟩
    obtain ⟨hw, hs⟩ := Finset.mem_filter.mp hw
    exact ⟨w, Finset.mem_range.mp hw, hs, rfl⟩

theorem Owned.card_held (ho : Owned s) (hN : N < 2 ^ 32) :
    s.held.card = ((Finset.range N).filter fun w => (s.set.cells w).state ≠ 0).card := by
  rw [ho.held_eq]
  refine Finset.card_image_of_injOn fun v hv w hw e => ?_
  have hv := Finset.mem_range.mp (Finset.mem_filter.mp hv).1
  have hw := Finset.mem_range.mp (Finset.mem_filter.mp hw).1
  rw [← ho.rep.slotIndex_handle hN hv, e, ho.rep.slotIndex_handle hN hw]

/-- `N` handles are held exactly when no slot is in state `0`. -/
theorem Owned.card_held_eq (ho : Owned s) (hN : N < 2 ^ 32) :
    s.held.card = N ↔ ∀ w < N, (s.set.cells w).state ≠ 0 := by
  rw [ho.card_held hN]
  constructor
  · intro hcard w hw
    have hfull := Finset.eq_of_subset_of_card_le (Finset.filter_subset _ (Finset.range N))
      (by rw [Finset.card_range, hcard])
    rw [← Finset.mem_range, ← hfull] at hw
    exact (Finset.mem_filter.mp hw).2
  · intro hall
    rw [Finset.filter_true_of_mem fun w hw => hall w (Finset.mem_range.mp hw), Finset.card_range]

/-- Of the issued handles, those held are valid. -/
theorem Owned.isValid_iff (ho : Owned s) (hN : N < 2 ^ 32) {h : Nat} (hi : h ∈ s.issued) :
    s.set.isValid h = true ↔ h ∈ s.held := by
  obtain ⟨w, hw, g, hg, rfl, hle⟩ := ho.issued_le h hi
  have hwN : w < 2 ^ 32 := hw.trans hN
  rw [ho.held_iff, SparseSet.isValid, slotIndex_packHandle hg hwN, slotGeneration_packHandle hg hwN,
    Bool.and_eq_true, decide_eq_true_eq, beq_iff_eq]
  constructor
  · rintro ⟨-, rfl⟩
    rcases hle with hlt | ⟨-, hs⟩
    · exact absurd hlt (lt_irrefl _)
    · exact ⟨w, hw, hs, rfl⟩
  · rintro ⟨v, hv, -, e⟩
    obtain ⟨rfl, rfl⟩ := packHandle_inj hg (ho.rep.generation_lt v hv) hwN (hv.trans hN) e
    exact ⟨hw, rfl⟩

theorem Owned.issued_ne_invalid (ho : Owned s) (hN : N < 2 ^ 32) : kInvalidHandle ∉ s.issued := by
  intro hi
  obtain ⟨w, hw, g, hg, e, -⟩ := ho.issued_le _ hi
  exact packHandle_ne_invalid hg hw hN e.symm

/-- With no state but `0` there are no calls to consider. -/
theorem not_legit (hK : stateCount ≤ 1) (r : Runs step Legit (start N stateCount) ops s) :
    s = start N stateCount := by
  refine r.invariant (I := fun a => a = start N stateCount) rfl fun a op b ha hop hb => ?_
  subst ha
  cases op with
  | pop b => exact absurd (hop.1.trans_lt hop.2) hK.not_gt
  | push handle => cases hop.1
  | moveToState handle b => cases hop.1
  | incrementState | decrementState => exact absurd hop id

/-- **Handles are unique over time.**  In every run that pops handles to states other than `0`,
moves and pushes held ones, and pushes no slot `2 ^ 32` times: no handle is returned twice, nor is
`kInvalidHandle`; the handles popped and not pushed since are valid and those pushed are not; `Pop`
fails exactly when `N` handles are held; and no such call accesses an array out of range. -/
theorem handles_unique (hN : N < 2 ^ 32) (r : Runs step Legit (start N stateCount) ops s) :
    s.issued.Nodup ∧ kInvalidHandle ∉ s.issued ∧
    (∀ h ∈ s.issued, s.set.isValid h = true ↔ h ∈ s.held) ∧
    (∀ b, 1 ≤ b → b < stateCount → ∃ set h, s.set.pop b = some (set, h) ∧
      (h = kInvalidHandle ↔ s.held.card = N)) ∧
    ∀ op, Legit s op → ∃ t, s.step op = some t := by
  rcases Nat.lt_or_ge 1 stateCount with hK | hK
  · have hK : 1 ≤ stateCount := hK.le
    have ho : Owned s := r.invariant (start_owned hN hK) fun a op b ha hop hb => by
      obtain ⟨t, ht, hown⟩ := step_owned ha hN hK hop
      rw [ht] at hb
      cases hb
      exact hown
    refine ⟨ho.nodup, ho.issued_ne_invalid hN, fun h hh => ho.isValid_iff hN hh, fun b _ hb => ?_,
      fun op hop => ?_⟩
    · rw [ho.card_held_eq hN]
      rcases SparseSet.pop_spec ho.rep hN hb with ⟨w, set, hw, h0, hp, -⟩ | ⟨hp, hne⟩
      · exact ⟨set, _, hp, fun e => absurd e (ho.rep.handle_ne_invalid hN hw),
          fun hne => absurd h0 (hne w hw)⟩
      · exact ⟨s.set, _, hp, fun _ => hne, fun _ => rfl⟩
    · obtain ⟨t, ht, -⟩ := step_owned ho hN hK hop
      exact ⟨t, ht⟩
  · cases not_legit hK r
    refine ⟨List.nodup_nil, List.not_mem_nil, fun h hh => absurd hh List.not_mem_nil,
      fun b h1 hb => absurd (h1.trans_lt hb) hK.not_gt, fun op hop => ?_⟩
    cases op with
    | pop b => exact absurd (hop.1.trans_lt hop.2) hK.not_gt
    | push handle => cases hop.1
    | moveToState handle b => cases hop.1
    | incrementState | decrementState => exact absurd hop id

/-- Two slots: one is popped and pushed, then the other is popped, and then the first again. -/
theorem handles_unique_reuse :
    ∃ s : Holding 2 3, s.issued = [0, 1, 2 ^ 32] ∧ s.issued.Nodup ∧
      ∀ h ∈ s.issued, s.set.isValid h = true ↔ h ∈ s.held := by
  have hexec : (execIf (fun s op => decide (Legit s op)) step (start 2 3)
      [.pop 1, .moveToState 0 2, .push 0, .pop 2, .pop 1]).map issued = some [0, 1, 2 ^ 32] := by
    decide +kernel
  obtain ⟨s, hs, hi⟩ := Option.map_eq_some_iff.mp hexec
  have r : Runs step Legit (start 2 3) _ s := Runs.of_execIf (I := fun _ => True)
    (fun _ _ _ h => of_decide_eq_true h) (fun _ _ _ _ _ _ => trivial) trivial hs
  have h := handles_unique (by decide) r
  exact ⟨s, hi, h.1, h.2.2.1⟩

end Holding

end IocpServer
