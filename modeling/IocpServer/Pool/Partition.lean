import IocpServer.Pool.SparseSet
import IocpServer.Support.Runs

/-!
# Pool — Partition

The representation invariant of `SparseSet` and what each operation does to the slots.

`Rep s` says that `dense` and the `where_` fields are inverse to each other, that `cursor` cuts
`0, …, N − 1` into one bucket for each state, and that each slot lies in the bucket of its state.
`cells s` is what a caller can tell of a slot: its state and its generation.

* `incrementState_spec`, `decrementState_spec`: one step changes the state of one slot.
* `moveToState_spec`: the two loops end with the slot in the state asked for.
* `push_spec`, `pop_spec`: recycling and taking.
* `sparseSet_invariant`: the invariant in the terms of the arrays, after any sequence of calls.
-/

namespace IocpServer.SparseSet

variable {N stateCount : Nat}

/-- What a caller can tell of a slot. -/
@[ext] structure Cell where
  state : Nat
  generation : Nat

/-- The slot in state `b`. -/
def Cell.move (c : Cell) (b : Nat) : Cell := { c with state := b }

/-- The slot back in state `0`, one generation on. -/
def Cell.recycle (c : Cell) : Cell := ⟨0, u32 (c.generation + 1)⟩

@[simp] theorem Cell.move_state (c : Cell) (b : Nat) : (c.move b).state = b := rfl

@[simp] theorem Cell.move_generation (c : Cell) (b : Nat) :
    (c.move b).generation = c.generation := rfl

@[simp] theorem Cell.move_move (c : Cell) (a b : Nat) : (c.move a).move b = c.move b := rfl

@[simp] theorem Cell.recycle_state (c : Cell) : c.recycle.state = 0 := rfl

@[simp] theorem Cell.recycle_generation (c : Cell) :
    c.recycle.generation = u32 (c.generation + 1) := rfl

/-- The state and generation of every slot. -/
def cells (s : SparseSet N stateCount) (w : Nat) : Cell :=
  ⟨(s.sparse w).state, (s.sparse w).generation⟩

/-- The position of every slot in `dense`. -/
def pos (s : SparseSet N stateCount) (w : Nat) : Nat := (s.sparse w).where_

/-- **The representation invariant.** -/
structure Rep (s : SparseSet N stateCount) : Prop where
  paired : Paired N s.dense s.pos
  cuts : Cuts N stateCount s.cursor
  state_lt : ∀ w < N, (s.cells w).state < stateCount
  le_pos : ∀ w < N, s.cursor (s.cells w).state ≤ s.pos w
  pos_lt : ∀ w < N, s.pos w < s.cursor ((s.cells w).state + 1)
  generation_lt : ∀ w < N, (s.cells w).generation < 2 ^ 32

/-- The position of a slot decides its state. -/
theorem Rep.state_of_pos {s : SparseSet N stateCount} (h : Rep s) {w b : Nat} (hw : w < N)
    (hb : b < stateCount) (h₁ : s.cursor b ≤ s.pos w) (h₂ : s.pos w < s.cursor (b + 1)) :
    (s.cells w).state = b :=
  h.cuts.bucket_unique (h.state_lt w hw) hb (h.le_pos w hw) (h.pos_lt w hw) h₁ h₂

theorem Rep.state_iff {s : SparseSet N stateCount} (h : Rep s) {w b : Nat} (hw : w < N)
    (hb : b < stateCount) :
    (s.cells w).state = b ↔ s.cursor b ≤ s.pos w ∧ s.pos w < s.cursor (b + 1) := by
  refine ⟨fun e => ?_, fun ⟨h₁, h₂⟩ => h.state_of_pos hw hb h₁ h₂⟩
  subst e
  exact ⟨h.le_pos w hw, h.pos_lt w hw⟩

theorem new_rep (hN : N < 2 ^ 32) (hK : 1 ≤ stateCount) : Rep (new N stateCount) := by
  have hu : ∀ w < N, u32 w = w := fun w hw => u32_of_lt (by omega)
  refine ⟨⟨fun i hi => ?_, fun w hw => ?_, fun i hi => ?_, fun w hw => ?_⟩,
    ⟨rfl, ?_, fun b hb => ?_⟩, fun w hw => ?_, fun w hw => ?_, fun w hw => ?_, fun w hw => ?_⟩
  · simpa only [new, hu i hi] using hi
  · simpa only [new, pos, hu w hw] using hw
  · simp only [new, pos, hu i hi]
  · simp only [new, pos, hu w hw]
  · simp only [new]; rw [if_neg (by omega), u32_of_lt hN]
  · simp only [new]; rw [if_neg (Nat.succ_ne_zero b)]; split <;> omega
  · exact hK
  · exact Nat.zero_le _
  · simpa [new, pos, cells, u32_of_lt hN, hu w hw] using hw
  · simp [new, cells]

/-! ### The exchange -/

/-- `slots` with the position of `w` set to `p`. -/
def setWhere (slots : Nat → Slot) (w p : Nat) : Nat → Slot :=
  upd slots w { slots w with where_ := p }

theorem setWhere_where (slots : Nat → Slot) (w p : Nat) :
    (fun x => (setWhere slots w p x).where_) = upd (fun x => (slots x).where_) w p := by
  funext x
  by_cases h : x = w
  · subst h; simp only [setWhere, upd_same]
  · simp only [setWhere, upd_other h]

theorem setWhere_state (slots : Nat → Slot) (w p x : Nat) :
    (setWhere slots w p x).state = (slots x).state := by
  by_cases h : x = w
  · subst h; simp only [setWhere, upd_same]
  · simp only [setWhere, upd_other h]

theorem setWhere_generation (slots : Nat → Slot) (w p x : Nat) :
    (setWhere slots w p x).generation = (slots x).generation := by
  by_cases h : x = w
  · subst h; simp only [setWhere, upd_same]
  · simp only [setWhere, upd_other h]

/-- The exchange stays in range and leaves states, generations and cuts; `p` and `q` change
occupants. -/
theorem swapDense_spec {s : SparseSet N stateCount} (h : Paired N s.dense s.pos) (hN : N < 2 ^ 32)
    {p q : Nat} (hp : p < N) (hq : q < N) :
    ∃ s', s.swapDense p q = some s' ∧ Paired N s'.dense s'.pos ∧
      s'.pos = upd (upd s.pos (s.dense q) p) (s.dense p) q ∧ s'.cells = s.cells ∧
      s'.cursor = s.cursor := by
  have hdp : upd (upd s.dense p (s.dense q)) q (s.dense p) p = s.dense q := by
    by_cases e : p = q
    · subst e; rw [upd_same]
    · rw [upd_other e, upd_same]
  have hdq : upd (upd s.dense p (s.dense q)) q (s.dense p) q = s.dense p := upd_same _ _ _
  have hpos : (fun x => (setWhere (setWhere s.sparse (s.dense q) p) (s.dense p) q x).where_) =
      upd (upd s.pos (s.dense q) p) (s.dense p) q := by
    rw [setWhere_where, setWhere_where]; rfl
  refine ⟨⟨setWhere (setWhere s.sparse (s.dense q) p) (s.dense p) q,
    upd (upd s.dense p (s.dense q)) q (s.dense p), s.cursor⟩, ?_, ?_, hpos, ?_, rfl⟩
  · simp only [swapDense, rd_of_lt hp, rd_of_lt hq, wr_of_lt hp, wr_of_lt hq,
      rd_of_lt (h.dense_lt q hq), rd_of_lt (h.dense_lt p hp), wr_of_lt (h.dense_lt q hq),
      wr_of_lt (h.dense_lt p hp), Option.bind_eq_bind, Option.bind_some, hdp, hdq,
      u32_of_lt (hp.trans hN), u32_of_lt (hq.trans hN)]
    rfl
  · have hpair := h.swap hp hq
    rw [← hpos] at hpair
    exact hpair
  · funext x
    simp only [cells, setWhere_state, setWhere_generation]

/-- Exchanging two places of one bucket keeps the invariant. -/
theorem swapDense_rep {s : SparseSet N stateCount} (h : Rep s) (hN : N < 2 ^ 32) {w q : Nat}
    (hw : w < N) (h₁ : s.cursor (s.cells w).state ≤ q)
    (h₂ : q < s.cursor ((s.cells w).state + 1)) :
    ∃ s', s.swapDense (s.pos w) q = some s' ∧ Rep s' ∧ s'.pos w = q ∧ s'.cells = s.cells ∧
      s'.cursor = s.cursor := by
  have hq : q < N := h₂.trans_le (h.cuts.le_last (h.state_lt w hw))
  obtain ⟨s', hs', hpair, hpos, hcells, hcur⟩ :=
    swapDense_spec h.paired hN (h.paired.pos_lt w hw) hq
  have hdw : s.dense (s.pos w) = w := h.paired.dense_pos w hw
  rw [hdw] at hpos
  -- the slot that was at `q` is in the bucket of `w`
  have hv : (s.cells (s.dense q)).state = (s.cells w).state :=
    h.state_of_pos (h.paired.dense_lt q hq) (h.state_lt w hw)
      (by rwa [h.paired.pos_dense q hq]) (by rwa [h.paired.pos_dense q hq])
  have hin : ∀ x < N, s.cursor (s.cells x).state ≤ s'.pos x ∧
      s'.pos x < s.cursor ((s.cells x).state + 1) := by
    intro x hx
    rw [hpos]
    by_cases e : x = w
    · subst e; rw [upd_same]; exact ⟨h₁, h₂⟩
    · rw [upd_other e]
      by_cases ev : x = s.dense q
      · subst ev; rw [upd_same, hv]; exact ⟨h.le_pos w hw, h.pos_lt w hw⟩
      · rw [upd_other ev]; exact ⟨h.le_pos x hx, h.pos_lt x hx⟩
  refine ⟨s', hs', ⟨hpair, hcur ▸ h.cuts, ?_, ?_, ?_, ?_⟩, ?_, hcells, hcur⟩
  · rw [hcells]; exact h.state_lt
  · rw [hcells, hcur]; exact fun x hx => (hin x hx).1
  · rw [hcells, hcur]; exact fun x hx => (hin x hx).2
  · rw [hcells]; exact h.generation_lt
  · rw [hpos, upd_same]

/-! ### One step -/

/-- `s` with the state of slot `w` set to `b` and the cut `k` set to `c`. -/
def recut (s : SparseSet N stateCount) (w b k c : Nat) : SparseSet N stateCount :=
  { s with sparse := upd s.sparse w { s.sparse w with state := b }, cursor := upd s.cursor k c }

theorem recut_cursor (s : SparseSet N stateCount) (w b k c : Nat) :
    (s.recut w b k c).cursor = upd s.cursor k c := rfl

theorem recut_pos (s : SparseSet N stateCount) (w b k c : Nat) : (s.recut w b k c).pos = s.pos := by
  funext x
  by_cases h : x = w
  · subst h; simp only [recut, pos, upd_same]
  · simp only [recut, pos, upd_other h]

theorem recut_cells (s : SparseSet N stateCount) (w b k c : Nat) :
    (s.recut w b k c).cells = upd s.cells w ((s.cells w).move b) := by
  funext x
  by_cases h : x = w
  · subst h; simp only [recut, cells, upd_same, Cell.move]
  · simp only [recut, cells, upd_other h]

/-- A cut may move over the place of `w`, when `w` changes to the bucket that place is then in and
every other place stays in its bucket. -/
theorem recut_rep {s : SparseSet N stateCount} (h : Rep s) {w b k c : Nat} (hw : w < N)
    (hb : b < stateCount) (hk : Cuts N stateCount (upd s.cursor k c))
    (h₁ : upd s.cursor k c b ≤ s.pos w) (h₂ : s.pos w < upd s.cursor k c (b + 1))
    (hother : ∀ i ≠ s.pos w, ∀ e, s.cursor e ≤ i → i < s.cursor (e + 1) →
      upd s.cursor k c e ≤ i ∧ i < upd s.cursor k c (e + 1)) : Rep (s.recut w b k c) := by
  have hne : ∀ x < N, x ≠ w → s.pos x ≠ s.pos w :=
    fun x hx e e' => e (h.paired.pos_inj hx hw e')
  have hin : ∀ x < N, x ≠ w → upd s.cursor k c (s.cells x).state ≤ s.pos x ∧
      s.pos x < upd s.cursor k c ((s.cells x).state + 1) :=
    fun x hx e => hother _ (hne x hx e) _ (h.le_pos x hx) (h.pos_lt x hx)
  refine ⟨by rw [recut_pos]; exact h.paired, hk, fun x hx => ?_, fun x hx => ?_, fun x hx => ?_,
    fun x hx => ?_⟩ <;> rw [recut_cells] <;> by_cases e : x = w
  · subst e; simpa only [upd_same, Cell.move_state] using hb
  · simpa only [upd_other e] using h.state_lt x hx
  · subst e; simpa only [upd_same, recut_pos, recut_cursor, Cell.move_state] using h₁
  · simpa only [upd_other e, recut_pos, recut_cursor] using (hin x hx e).1
  · subst e; simpa only [upd_same, recut_pos, recut_cursor, Cell.move_state] using h₂
  · simpa only [upd_other e, recut_pos, recut_cursor] using (hin x hx e).2
  · subst e; simpa only [upd_same, Cell.move_generation] using h.generation_lt x hw
  · simpa only [upd_other e] using h.generation_lt x hx

/-- Below the last state, `IncrementState` raises the state of its slot by one. -/
theorem incrementState_spec {s : SparseSet N stateCount} (h : Rep s) (hN : N < 2 ^ 32)
    {handle : Nat} (hw : slotIndex handle < N)
    (hlt : (s.cells (slotIndex handle)).state + 1 < stateCount) :
    ∃ s', s.incrementState handle = some s' ∧ Rep s' ∧
      s'.cells = upd s.cells (slotIndex handle)
        ((s.cells (slotIndex handle)).move ((s.cells (slotIndex handle)).state + 1)) := by
  set w := slotIndex handle with hwdef
  set b := (s.cells w).state with hb
  have hle : s.cursor b ≤ s.pos w := h.le_pos w hw
  have hpos : s.pos w < s.cursor (b + 1) := h.pos_lt w hw
  have hcN : s.cursor (b + 1) ≤ N := h.cuts.le_last hlt.le
  have hmono := h.cuts.mono (b + 1) hlt
  obtain ⟨t, ht, hrep, htw, htcells, htcur⟩ :=
    swapDense_rep h hN hw (show s.cursor b ≤ s.cursor (b + 1) - 1 by omega)
      (show s.cursor (b + 1) - 1 < s.cursor (b + 1) by omega)
  have hcut : Cuts N stateCount (upd t.cursor (b + 1) (s.cursor (b + 1) - 1)) := by
    rw [htcur]
    exact h.cuts.move (by omega) hlt (by rw [Nat.add_sub_cancel]; omega) (by omega)
  refine ⟨t.recut w (b + 1) (b + 1) (s.cursor (b + 1) - 1), ?_, recut_rep hrep hw hlt hcut ?_ ?_ ?_,
    by rw [recut_cells, htcells]⟩
  · have hst : (s.sparse w).state = b := rfl
    have hwh : (s.sparse w).where_ = s.pos w := rfl
    simp only [incrementState, ← hwdef, rd_of_lt hw, wr_of_lt hw, Option.bind_eq_bind,
      Option.bind_some, hst, hwh, if_neg (show ¬ stateCount - 1 ≤ b by omega),
      rd_of_lt (show b + 1 < stateCount + 1 by omega), wr_of_lt (show b + 1 < stateCount + 1 by omega),
      sub32_of_le (show 1 ≤ s.cursor (b + 1) by omega) (by omega), ht, htcur]
    simp only [recut, htcur]; rfl
  · rw [htw, upd_same]
  · rw [htw, htcur, upd_other (by omega)]; omega
  · intro i hi e he₁ he₂
    rw [htw] at hi
    rw [htcur] at he₁ he₂ ⊢
    simp only [upd_apply]
    constructor
    · split_ifs with e₁
      · rw [e₁] at he₁; omega
      · exact he₁
    · split_ifs with e₁
      · rw [e₁] at he₂; omega
      · exact he₂

/-- In the last state `IncrementState` only logs. -/
theorem incrementState_last {s : SparseSet N stateCount} {handle : Nat} (hw : slotIndex handle < N)
    (hlt : stateCount ≤ (s.cells (slotIndex handle)).state + 1) :
    s.incrementState handle = some s := by
  have hst : stateCount - 1 ≤ (s.sparse (slotIndex handle)).state := Nat.sub_le_of_le_add hlt
  simp only [incrementState, rd_of_lt hw, Option.bind_eq_bind, Option.bind_some, if_pos hst]
  rfl

/-- Above state `0`, `DecrementState` lowers the state of its slot by one. -/
theorem decrementState_spec {s : SparseSet N stateCount} (h : Rep s) (hN : N < 2 ^ 32)
    {handle : Nat} (hw : slotIndex handle < N) (hlt : 0 < (s.cells (slotIndex handle)).state) :
    ∃ s', s.decrementState handle = some s' ∧ Rep s' ∧
      s'.cells = upd s.cells (slotIndex handle)
        ((s.cells (slotIndex handle)).move ((s.cells (slotIndex handle)).state - 1)) := by
  set w := slotIndex handle with hwdef
  set b := (s.cells w).state with hb
  have hle : s.cursor b ≤ s.pos w := h.le_pos w hw
  have hpos : s.pos w < s.cursor (b + 1) := h.pos_lt w hw
  have hbK : b < stateCount := h.state_lt w hw
  have hcN : s.cursor (b + 1) ≤ N := h.cuts.le_last hbK
  have hmono := h.cuts.mono (b - 1) (by omega)
  rw [Nat.sub_add_cancel hlt] at hmono
  obtain ⟨t, ht, hrep, htw, htcells, htcur⟩ :=
    swapDense_rep h hN hw (le_refl (s.cursor b)) (show s.cursor b < s.cursor (b + 1) by omega)
  have hcut : Cuts N stateCount (upd t.cursor b (s.cursor b + 1)) := by
    rw [htcur]
    exact h.cuts.move hlt hbK (by omega) (by omega)
  refine ⟨t.recut w (b - 1) b (s.cursor b + 1), ?_, recut_rep hrep hw (by omega) hcut ?_ ?_ ?_,
    by rw [recut_cells, htcells]⟩
  · have hst : (s.sparse w).state = b := rfl
    have hwh : (s.sparse w).where_ = s.pos w := rfl
    simp only [decrementState, ← hwdef, rd_of_lt hw, wr_of_lt hw, Option.bind_eq_bind,
      Option.bind_some, hst, hwh, if_neg (show ¬ b = 0 by omega),
      rd_of_lt (show b < stateCount + 1 by omega), wr_of_lt (show b < stateCount + 1 by omega),
      u32_of_lt (show s.cursor b + 1 < 2 ^ 32 by omega), ht, htcur]
    simp only [recut, htcur]; rfl
  · rw [htw, htcur, upd_other (by omega)]; exact hmono
  · rw [htw, Nat.sub_add_cancel hlt, upd_same]; omega
  · intro i hi e he₁ he₂
    rw [htw] at hi
    rw [htcur] at he₁ he₂ ⊢
    simp only [upd_apply]
    constructor
    · split_ifs with e₁
      · rw [e₁] at he₁; omega
      · exact he₁
    · split_ifs with e₁
      · rw [e₁] at he₂; omega
      · exact he₂

/-- In state `0` `DecrementState` only logs. -/
theorem decrementState_first {s : SparseSet N stateCount} {handle : Nat} (hw : slotIndex handle < N)
    (h0 : (s.cells (slotIndex handle)).state = 0) : s.decrementState handle = some s := by
  have hst : (s.sparse (slotIndex handle)).state = 0 := h0
  simp only [decrementState, rd_of_lt hw, Option.bind_eq_bind, Option.bind_some, if_pos hst]
  rfl

/-! ### The calls -/

/-- `s'` is `s` with at most the state of slot `w` changed. -/
def OnlyState (s s' : SparseSet N stateCount) (w : Nat) : Prop :=
  s'.cells = upd s.cells w ((s.cells w).move (s'.cells w).state)

theorem OnlyState.refl (s : SparseSet N stateCount) (w : Nat) : OnlyState s s w :=
  (Function.update_eq_self w s.cells).symm

theorem OnlyState.step {s t u : SparseSet N stateCount} {w b : Nat} (h : OnlyState s t w)
    (hu : u.cells = upd t.cells w ((t.cells w).move b)) : OnlyState s u w := by
  have hb : (u.cells w).state = b := by rw [hu, upd_same, Cell.move_state]
  rw [OnlyState, hb, hu, h]
  simp only [upd, Function.update_idem, Function.update_self, Cell.move_move]

/-- The first loop ends at or above the state asked for. -/
theorem raise_spec {s : SparseSet N stateCount} (h : Rep s) (hN : N < 2 ^ 32) {handle b : Nat}
    (hw : slotIndex handle < N) (hb : b < stateCount) {fuel : Nat} (hf : stateCount ≤ fuel) :
    ∃ t, Loop.run (raiseBody handle b) fuel s = some t ∧ Rep t ∧ OnlyState s t (slotIndex handle) ∧
      b ≤ (t.cells (slotIndex handle)).state := by
  refine Loop.run_of_measure (I := fun t => Rep t ∧ OnlyState s t (slotIndex handle))
    (μ := fun t => b - (t.cells (slotIndex handle)).state) ?_ ⟨h, .refl _ _⟩ (by omega)
  rintro t ⟨ht, honly⟩
  have hst : (t.sparse (slotIndex handle)).state = (t.cells (slotIndex handle)).state := rfl
  simp only [raiseBody, rd_of_lt hw, Option.bind_eq_bind, Option.bind_some, hst]
  by_cases hlt : (t.cells (slotIndex handle)).state < b
  · obtain ⟨u, hu, hrep, hcells⟩ := incrementState_spec ht hN hw (by omega)
    refine .inr ⟨u, by rw [if_pos hlt, hu]; rfl, ⟨hrep, honly.step hcells⟩, ?_⟩
    rw [hcells, upd_same, Cell.move_state]
    omega
  · exact .inl ⟨t, by rw [if_neg hlt]; rfl, ht, honly, by omega⟩

/-- From there the second loop ends in that state. -/
theorem lower_spec {s t : SparseSet N stateCount} (ht : Rep t) (hN : N < 2 ^ 32) {handle b : Nat}
    (hw : slotIndex handle < N) (honly : OnlyState s t (slotIndex handle))
    (hb : b ≤ (t.cells (slotIndex handle)).state) {fuel : Nat} (hf : stateCount ≤ fuel) :
    ∃ u, Loop.run (lowerBody handle b) fuel t = some u ∧ Rep u ∧ OnlyState s u (slotIndex handle) ∧
      (u.cells (slotIndex handle)).state = b := by
  refine Loop.run_of_measure
    (I := fun t => Rep t ∧ OnlyState s t (slotIndex handle) ∧ b ≤ (t.cells (slotIndex handle)).state)
    (μ := fun t => (t.cells (slotIndex handle)).state - b) ?_ ⟨ht, honly, hb⟩
    (by have := ht.state_lt _ hw; omega)
  rintro t ⟨ht, honly, hge⟩
  have hst : (t.sparse (slotIndex handle)).state = (t.cells (slotIndex handle)).state := rfl
  simp only [lowerBody, rd_of_lt hw, Option.bind_eq_bind, Option.bind_some, hst]
  by_cases hlt : b < (t.cells (slotIndex handle)).state
  · obtain ⟨u, hu, hrep, hcells⟩ := decrementState_spec ht hN hw (by omega)
    have hu' : (u.cells (slotIndex handle)).state = (t.cells (slotIndex handle)).state - 1 := by
      rw [hcells, upd_same, Cell.move_state]
    exact .inr ⟨u, by rw [if_pos hlt, hu]; rfl, ⟨hrep, honly.step hcells, by omega⟩, by omega⟩
  · exact .inl ⟨t, by rw [if_neg hlt]; rfl, ht, honly, by omega⟩

/-- `MoveToState` ends, with any fuel from `stateCount` on, and sets the state of its slot. -/
theorem moveToStateWithin_spec {s : SparseSet N stateCount} (h : Rep s) (hN : N < 2 ^ 32)
    {handle b : Nat} (hw : slotIndex handle < N) (hb : b < stateCount) {fuel : Nat}
    (hf : stateCount ≤ fuel) :
    ∃ s', s.moveToStateWithin fuel handle b = some s' ∧ Rep s' ∧
      s'.cells = upd s.cells (slotIndex handle) ((s.cells (slotIndex handle)).move b) := by
  obtain ⟨t, hrun, ht, honly, hge⟩ := raise_spec h hN hw hb hf
  obtain ⟨u, hrun', hu, honly', heq⟩ := lower_spec ht hN hw honly hge hf
  refine ⟨u, ?_, hu, heq ▸ honly'⟩
  simp only [moveToStateWithin, if_neg hb.not_ge, hrun, Option.bind_eq_bind, Option.bind_some, hrun']

/-- Fuel beyond `stateCount` changes nothing. -/
theorem moveToStateWithin_eq {s : SparseSet N stateCount} (h : Rep s) (hN : N < 2 ^ 32)
    {handle b : Nat} (hw : slotIndex handle < N) {fuel : Nat} (hf : stateCount ≤ fuel) :
    s.moveToStateWithin fuel handle b = s.moveToState handle b := by
  by_cases hb : b < stateCount
  · obtain ⟨t, hrun, ht, honly, hge⟩ := raise_spec h hN hw hb le_rfl
    obtain ⟨u, hrun', -⟩ := lower_spec ht hN hw honly hge le_rfl
    simp only [moveToState, moveToStateWithin, if_neg hb.not_ge, hrun, Loop.run_mono hrun hf,
      Option.bind_eq_bind, Option.bind_some, hrun', Loop.run_mono hrun' hf]
  · simp only [moveToState, moveToStateWithin, if_pos (not_lt.mp hb)]

theorem moveToState_spec {s : SparseSet N stateCount} (h : Rep s) (hN : N < 2 ^ 32)
    {handle b : Nat} (hw : slotIndex handle < N) (hb : b < stateCount) :
    ∃ s', s.moveToState handle b = some s' ∧ Rep s' ∧
      s'.cells = upd s.cells (slotIndex handle) ((s.cells (slotIndex handle)).move b) :=
  moveToStateWithin_spec h hN hw hb le_rfl

/-- An invalid state changes nothing. -/
theorem moveToState_invalid {s : SparseSet N stateCount} {handle b : Nat} (hb : stateCount ≤ b) :
    s.moveToState handle b = some s :=
  if_pos hb

/-- `Push` returns the slot to state `0` under the next generation. -/
theorem push_spec {s : SparseSet N stateCount} (h : Rep s) (hN : N < 2 ^ 32)
    (hK : 1 ≤ stateCount) {handle : Nat} (hw : slotIndex handle < N) :
    ∃ s', s.push handle = some s' ∧ Rep s' ∧
      s'.cells = upd s.cells (slotIndex handle)
        (s.cells (slotIndex handle)).recycle := by
  obtain ⟨t, ht, hrep, hcells⟩ := moveToState_spec h hN hw hK
  set w := slotIndex handle with hwdef
  have hg : (t.sparse w).generation = (s.cells w).generation := by
    show (t.cells w).generation = _
    rw [hcells, upd_same, Cell.move_generation]
  have hs : (t.cells w).state = 0 := by rw [hcells, upd_same, Cell.move_state]
  let s' : SparseSet N stateCount :=
    { t with sparse := upd t.sparse w { t.sparse w with generation := u32 ((t.sparse w).generation + 1) } }
  have hc : s'.cells = upd t.cells w (s.cells w).recycle := by
    funext x
    by_cases e : x = w
    · subst e
      exact Cell.ext (by simpa only [cells, s', upd_same, Cell.recycle_state] using hs)
        (by simp only [cells, s', upd_same, Cell.recycle, hg])
    · simp only [cells, s', upd_other e]
  have hp : s'.pos = t.pos := by
    funext x
    by_cases e : x = w
    · subst e; simp only [pos, s', upd_same]
    · simp only [pos, s', upd_other e]
  have hstate : ∀ x, (s'.cells x).state = (t.cells x).state := by
    intro x
    rw [hc]
    by_cases e : x = w
    · subst e; rw [upd_same, hs, Cell.recycle_state]
    · rw [upd_other e]
  refine ⟨s', ?_, ⟨by rw [hp]; exact hrep.paired, hrep.cuts, ?_, ?_, ?_, ?_⟩, ?_⟩
  · simp only [push, ← hwdef, ht, Option.bind_eq_bind, Option.bind_some, rd_of_lt hw, wr_of_lt hw]
    rfl
  · intro x hx; rw [hstate]; exact hrep.state_lt x hx
  · intro x hx; rw [hstate, hp]; exact hrep.le_pos x hx
  · intro x hx; rw [hstate, hp]; exact hrep.pos_lt x hx
  · intro x hx
    rw [hc]
    by_cases e : x = w
    · subst e; rw [upd_same]; exact u32_lt _
    · rw [upd_other e]; exact hrep.generation_lt x hx
  · rw [hc, hcells]; simp only [upd, Function.update_idem]

/-- The current handle of a slot. -/
def handle (s : SparseSet N stateCount) (w : Nat) : Nat := packHandle (s.cells w).generation w

theorem getHandle_eq (s : SparseSet N stateCount) {w : Nat} (hw : w < N) :
    s.getHandle w = some (s.handle w) := by
  simp only [getHandle, rd_of_lt hw, Option.bind_eq_bind, Option.bind_some]; rfl

theorem Rep.slotIndex_handle {s : SparseSet N stateCount} (h : Rep s) (hN : N < 2 ^ 32) {w : Nat}
    (hw : w < N) : slotIndex (s.handle w) = w :=
  slotIndex_packHandle (h.generation_lt w hw) (hw.trans hN)

theorem Rep.slotGeneration_handle {s : SparseSet N stateCount} (h : Rep s) (hN : N < 2 ^ 32)
    {w : Nat} (hw : w < N) : slotGeneration (s.handle w) = (s.cells w).generation :=
  slotGeneration_packHandle (h.generation_lt w hw) (hw.trans hN)

theorem Rep.handle_ne_invalid {s : SparseSet N stateCount} (h : Rep s) (hN : N < 2 ^ 32) {w : Nat}
    (hw : w < N) : s.handle w ≠ kInvalidHandle :=
  packHandle_ne_invalid (h.generation_lt w hw) hw hN

theorem handle_other {s s' : SparseSet N stateCount} {w x : Nat} {c : Cell}
    (h : s'.cells = upd s.cells w c) (hx : x ≠ w) : s'.handle x = s.handle x := by
  rw [handle, handle, h, upd_other hx]

/-- A move keeps every handle. -/
theorem handle_move {s s' : SparseSet N stateCount} {w b : Nat}
    (h : s'.cells = upd s.cells w ((s.cells w).move b)) (x : Nat) : s'.handle x = s.handle x := by
  by_cases e : x = w
  · rw [handle, handle, h, e, upd_same, Cell.move_generation]
  · exact handle_other h e

/-- The first bucket is empty when no slot is in state `0`. -/
theorem Rep.cursor_eq_iff {s : SparseSet N stateCount} (h : Rep s) (hK : 1 ≤ stateCount) :
    s.cursor 0 = s.cursor 1 ↔ ∀ w < N, (s.cells w).state ≠ 0 := by
  constructor
  · intro e w hw h0
    have h₁ := h.le_pos w hw
    have h₂ := h.pos_lt w hw
    rw [h0] at h₁ h₂
    rw [Nat.zero_add] at h₂
    omega
  · intro hne
    by_contra hlt
    have hm := h.cuts.mono 0 hK
    have h0 := h.cuts.zero
    have hN := h.cuts.le_last (b := 1) hK
    have hpos := h.paired.pos_dense 0 (by omega)
    exact hne (s.dense 0) (h.paired.dense_lt 0 (by omega))
      (h.state_of_pos (h.paired.dense_lt 0 (by omega)) hK (by omega) (by rw [Nat.zero_add]; omega))

/-- `Pop` takes one slot out of state `0` and returns its handle, or there is none. -/
theorem pop_spec {s : SparseSet N stateCount} (h : Rep s) (hN : N < 2 ^ 32) {b : Nat}
    (hb : b < stateCount) :
    (∃ w s', w < N ∧ (s.cells w).state = 0 ∧ s.pop b = some (s', s.handle w) ∧ Rep s' ∧
      s'.cells = upd s.cells w ((s.cells w).move b)) ∨
    s.pop b = some (s, kInvalidHandle) ∧ ∀ w < N, (s.cells w).state ≠ 0 := by
  have hK : 1 ≤ stateCount := by omega
  have h0 := h.cuts.zero
  by_cases e : s.cursor 0 = s.cursor 1
  · refine .inr ⟨?_, (h.cursor_eq_iff hK).mp e⟩
    simp only [pop, if_neg hb.not_ge, rd_of_lt (show 0 < stateCount + 1 by omega),
      rd_of_lt (show 1 < stateCount + 1 by omega), Option.bind_eq_bind, Option.bind_some, if_pos e]
    rfl
  · have hm := h.cuts.mono 0 hK
    have h1N := h.cuts.le_last (b := 1) hK
    have hNpos : 0 < N := by omega
    have hwN := h.paired.dense_lt 0 hNpos
    have hpos := h.paired.pos_dense 0 hNpos
    have hst : (s.cells (s.dense 0)).state = 0 :=
      h.state_of_pos hwN hK (by omega) (by rw [Nat.zero_add]; omega)
    obtain ⟨s', hs', hrep, hcells⟩ :=
      moveToState_spec h hN
        (show slotIndex (s.handle (s.dense 0)) < N by rwa [h.slotIndex_handle hN hwN]) hb
    rw [h.slotIndex_handle hN hwN] at hcells
    refine .inl ⟨s.dense 0, s', hwN, hst, ?_, hrep, hcells⟩
    simp only [pop, if_neg hb.not_ge, rd_of_lt (show 0 < stateCount + 1 by omega),
      rd_of_lt (show 1 < stateCount + 1 by omega), Option.bind_eq_bind, Option.bind_some, if_neg e]
    simp only [h0, rd_of_lt hNpos, getHandle_eq s hwN, Option.bind_some, hs']
    rfl

theorem pop_invalid {s : SparseSet N stateCount} {b : Nat} (hb : stateCount ≤ b) :
    s.pop b = some (s, kInvalidHandle) :=
  if_pos hb

theorem isValid_invalid (hN : N < 2 ^ 32) (s : SparseSet N stateCount) :
    s.isValid kInvalidHandle = false := by
  have hidx : slotIndex kInvalidHandle = 2 ^ 32 - 1 := by decide
  have hout : ¬ slotIndex kInvalidHandle < N := by omega
  simp only [isValid, hout, decide_false, Bool.false_and]

/-- `Pop` returns a handle that is valid, or changes nothing. -/
theorem pop_valid {s : SparseSet N stateCount} (h : Rep s) (hN : N < 2 ^ 32) (b : Nat) :
    (∃ s' handle, s.pop b = some (s', handle) ∧ s'.isValid handle = true) ∨
    s.pop b = some (s, kInvalidHandle) := by
  by_cases hb : b < stateCount
  · rcases pop_spec h hN hb with ⟨w, s', hw, -, hp, hrep, hcells⟩ | ⟨hp, -⟩
    · refine .inl ⟨s', s.handle w, hp, ?_⟩
      have hgen : (s'.sparse w).generation = (s.cells w).generation := by
        show (s'.cells w).generation = _
        rw [hcells, upd_same, Cell.move_generation]
      rw [isValid, h.slotIndex_handle hN hw, h.slotGeneration_handle hN hw, hgen]
      simp [hw]
    · exact .inr hp
  · exact .inr (pop_invalid (not_lt.mp hb))

/-! ### Sequences of calls -/

/-- A call that changes the set. -/
inductive Op where
  | pop (state : Nat)
  | push (handle : Nat)
  | moveToState (handle newState : Nat)
  | incrementState (handle : Nat)
  | decrementState (handle : Nat)

/-- The call names a slot below `N`. -/
def Op.InRange (N : Nat) : Op → Prop
  | .pop _ => True
  | .push handle | .moveToState handle _ | .incrementState handle | .decrementState handle =>
      slotIndex handle < N

instance (N : Nat) : (op : Op) → Decidable (op.InRange N)
  | .pop _ => inferInstanceAs (Decidable True)
  | .push _ | .moveToState _ _ | .incrementState _ | .decrementState _ =>
      inferInstanceAs (Decidable (_ < N))

/-- The set after a call. -/
def step (s : SparseSet N stateCount) : Op → Option (SparseSet N stateCount)
  | .pop state => (s.pop state).map Prod.fst
  | .push handle => s.push handle
  | .moveToState handle newState => s.moveToState handle newState
  | .incrementState handle => s.incrementState handle
  | .decrementState handle => s.decrementState handle

/-- Every call stays in range and keeps the invariant. -/
theorem step_rep {s : SparseSet N stateCount} (h : Rep s) (hN : N < 2 ^ 32) (hK : 1 ≤ stateCount)
    {op : Op} (hop : op.InRange N) : ∃ s', s.step op = some s' ∧ Rep s' := by
  cases op with
  | pop b =>
      by_cases hb : b < stateCount
      · rcases pop_spec h hN hb with ⟨w, s', -, -, hp, hrep, -⟩ | ⟨hp, -⟩
        · exact ⟨s', by rw [step, hp]; rfl, hrep⟩
        · exact ⟨s, by rw [step, hp]; rfl, h⟩
      · exact ⟨s, by rw [step, pop_invalid (not_lt.mp hb)]; rfl, h⟩
  | push handle =>
      obtain ⟨s', hs', hrep, -⟩ := push_spec h hN hK hop
      exact ⟨s', hs', hrep⟩
  | moveToState handle b =>
      by_cases hb : b < stateCount
      · obtain ⟨s', hs', hrep, -⟩ := moveToState_spec h hN hop hb
        exact ⟨s', hs', hrep⟩
      · exact ⟨s, moveToState_invalid (not_lt.mp hb), h⟩
  | incrementState handle =>
      by_cases hlt : (s.cells (slotIndex handle)).state + 1 < stateCount
      · obtain ⟨s', hs', hrep, -⟩ := incrementState_spec h hN hop hlt
        exact ⟨s', hs', hrep⟩
      · exact ⟨s, incrementState_last hop (not_lt.mp hlt), h⟩
  | decrementState handle =>
      by_cases hlt : 0 < (s.cells (slotIndex handle)).state
      · obtain ⟨s', hs', hrep, -⟩ := decrementState_spec h hN hop hlt
        exact ⟨s', hs', hrep⟩
      · exact ⟨s, decrementState_first hop (by omega), h⟩

/-- Every sequence of calls keeps the invariant. -/
theorem exec_rep (hN : N < 2 ^ 32) (hK : 1 ≤ stateCount) :
    ∀ {s : SparseSet N stateCount} (ops : List Op), Rep s → (∀ op ∈ ops, op.InRange N) →
      ∃ s', exec step s ops = some s' ∧ Rep s'
  | s, [], h, _ => ⟨s, rfl, h⟩
  | s, op :: ops, h, hops => by
      obtain ⟨t, ht, hrep⟩ := step_rep h hN hK (hops op List.mem_cons_self)
      obtain ⟨u, hu, hrep'⟩ := exec_rep hN hK ops hrep fun o ho => hops o (List.mem_cons_of_mem _ ho)
      exact ⟨u, by rw [exec_cons, ht, Option.bind_some, hu], hrep'⟩

/-- **The representation invariant in the terms of the three arrays**, after every sequence of
calls on slots below `N`, with any state arguments: no call leaves the arrays or fails to end,
`dense` is a permutation with `where_` its inverse, `cursor` rises from `0` to `N`, and a slot is
in a state when it lies between that state's two cuts. -/
theorem sparseSet_invariant (hN : N < 2 ^ 32) (hK : 1 ≤ stateCount) (ops : List Op)
    (hops : ∀ op ∈ ops, op.InRange N) :
    ∃ s : SparseSet N stateCount, exec step (new N stateCount) ops = some s ∧
      Set.BijOn s.dense (Set.Iio N) (Set.Iio N) ∧
      (∀ i < N, (s.sparse (s.dense i)).where_ = i) ∧
      s.cursor 0 = 0 ∧ s.cursor stateCount = N ∧ (∀ b < stateCount, s.cursor b ≤ s.cursor (b + 1)) ∧
      ∀ w < N, ∀ b < stateCount, (s.sparse w).state = b ↔
        s.cursor b ≤ (s.sparse w).where_ ∧ (s.sparse w).where_ < s.cursor (b + 1) := by
  obtain ⟨s, hs, h⟩ := exec_rep hN hK ops (new_rep hN hK) hops
  exact ⟨s, hs, h.paired.bijOn, h.paired.pos_dense, h.cuts.zero, h.cuts.last, h.cuts.mono,
    fun w hw b hb => h.state_iff hw hb⟩

/-- Three slots, three states: a slot taken, moved on and recycled, with a call in an invalid
state between. -/
theorem sparseSet_invariant_three :
    ∃ s : SparseSet 3 3,
      exec step (new 3 3) [.pop 1, .moveToState 0 2, .moveToState 0 9, .push 0] = some s ∧
      Set.BijOn s.dense (Set.Iio 3) (Set.Iio 3) ∧
      (∀ i < 3, (s.sparse (s.dense i)).where_ = i) ∧
      s.cursor 0 = 0 ∧ s.cursor 3 = 3 ∧ (∀ b < 3, s.cursor b ≤ s.cursor (b + 1)) ∧
      ∀ w < 3, ∀ b < 3, (s.sparse w).state = b ↔
        s.cursor b ≤ (s.sparse w).where_ ∧ (s.sparse w).where_ < s.cursor (b + 1) :=
  sparseSet_invariant (by decide) (by decide) _ (by
    simp only [List.mem_cons, List.not_mem_nil, or_false]
    rintro op (rfl | rfl | rfl | rfl) <;> decide)

end IocpServer.SparseSet
