import IocpServer.Pool.Partition
import IocpServer.Support.Agree
import Mathlib.Data.Finset.Card
import Mathlib.Data.Finset.Range

/-!
# Pool — SparsePool

`Common/Pool/SparsePool.hpp` as one thread sees it: a `SparseSet` of slots, and for each slot its
`refCount_` and its `obj_`.  A `SharedPoolPtr` is the handle it holds, `none` when it is empty.
A slot's own `handle_` is left out: nothing reads it.

* `acquire_spec`, `releaseRef_spec`: one call each, under the invariant of the set.
* `acquire_agree`, `releaseRef_agree`: neither looks at the objects.
-/

namespace IocpServer

/-- `SparsePool<T, N, StateCount>`. -/
structure SparsePool (α : Type) (N stateCount : Nat) where
  set : SparseSet N stateCount
  refCount : Nat → Nat
  obj : Nat → α

namespace SparsePool

variable {α : Type} {N stateCount : Nat}

/-- The constructor, over the objects `obj`. -/
def new (N stateCount : Nat) (obj : Nat → α) : SparsePool α N stateCount :=
  ⟨.new N stateCount, fun _ => 0, obj⟩

/-- `AddRef`. -/
def addRef (q : SparsePool α N stateCount) (handle : Nat) : Option (SparsePool α N stateCount) := do
  let count ← rd N q.refCount (slotIndex handle)
  let refCount ← wr N q.refCount (slotIndex handle) (u64 (count + 1))
  return { q with refCount }

/-- `ReleaseRef`: the last reference pushes the slot back. -/
def releaseRef (q : SparsePool α N stateCount) (handle : Nat) :
    Option (SparsePool α N stateCount) := do
  let count ← rd N q.refCount (slotIndex handle)
  let refCount ← wr N q.refCount (slotIndex handle) (sub64 count 1)
  if count = 1 then
    let set ← q.set.push handle
    return { q with refCount, set }
  else
    return { q with refCount }

/-- `Acquire`: a slot is popped and initialised, and its first reference counted; `none` stands for
the `nullptr` returned when no slot is free. -/
def acquire (init : α → α) (q : SparsePool α N stateCount) (state : Nat) :
    Option (SparsePool α N stateCount × Option Nat) := do
  let (set, handle) ← q.set.pop state
  if set.isValid handle then
    let idx := slotIndex handle
    let x ← rd N q.obj idx
    let obj ← wr N q.obj idx (init x)
    let refCount ← wr N q.refCount idx 0
    let q ← addRef ⟨set, refCount, obj⟩ handle
    return (q, some handle)
  else
    return ({ q with set }, none)

/-- `MoveToState`, the set's under the lock. -/
def moveToState (q : SparsePool α N stateCount) (handle newState : Nat) :
    Option (SparsePool α N stateCount) := do
  let set ← q.set.moveToState handle newState
  return { q with set }

/-! ### One call -/

/-- The slots in state `0`. -/
def free (q : SparsePool α N stateCount) : Finset Nat :=
  (Finset.range N).filter fun w => (q.set.cells w).state = 0

variable {q : SparsePool α N stateCount}

theorem mem_free {w : Nat} : w ∈ q.free ↔ w < N ∧ (q.set.cells w).state = 0 := by
  rw [free, Finset.mem_filter, Finset.mem_range]

/-- `Acquire` takes a free slot and counts one reference to it, or there is none. -/
theorem acquire_spec (h : q.set.Rep) (hN : N < 2 ^ 32) {state : Nat} (hs : state < stateCount)
    (h0 : state ≠ 0) (init : α → α) :
    (∃ w q', w ∈ q.free ∧ q.acquire init state = some (q', some (q.set.handle w)) ∧ q'.set.Rep ∧
      q'.free = q.free.erase w ∧ q'.refCount = upd q.refCount w 1 ∧
      q'.obj = upd q.obj w (init (q.obj w))) ∨
    q.free = ∅ ∧ q.acquire init state = some (q, none) := by
  rcases SparseSet.pop_spec h hN hs with ⟨w, set, hw, hst, hpop, hrep, hcells⟩ | ⟨hpop, hnone⟩
  · left
    have hidx : slotIndex (q.set.handle w) = w := h.slotIndex_handle hN hw
    have hvalid : set.isValid (q.set.handle w) = true := by
      rcases SparseSet.pop_valid h hN state with ⟨set', handle, hp, hv⟩ | hp
      · rw [hpop] at hp
        cases hp
        exact hv
      · rw [hpop, Option.some.injEq, Prod.mk.injEq] at hp
        exact absurd hp.2 (h.handle_ne_invalid hN hw)
    refine ⟨w, ⟨set, upd (upd q.refCount w 0) w (u64 (0 + 1)), upd q.obj w (init (q.obj w))⟩,
      mem_free.mpr ⟨hw, hst⟩, ?_, hrep, ?_, ?_, rfl⟩
    · simp only [acquire, addRef, hpop, hvalid, hidx, rd_of_lt hw, wr_of_lt hw, upd_same,
        Option.bind_eq_bind, Option.bind_some, if_true]
      rfl
    · ext x
      rw [mem_free, Finset.mem_erase, mem_free]
      show x < N ∧ (set.cells x).state = 0 ↔ _
      rw [hcells]
      by_cases hx : x = w
      · subst hx
        rw [upd_same, SparseSet.Cell.move_state]
        simp [h0]
      · rw [upd_other hx]
        simp [hx]
    · simp only [upd, Function.update_idem]
      rfl
  · right
    constructor
    · ext x
      rw [mem_free]
      simpa using hnone x
    · simp only [acquire, hpop, SparseSet.isValid_invalid hN, Option.bind_eq_bind, Option.bind_some,
        Bool.false_eq_true, if_false]
      rfl

/-- `ReleaseRef` on a slot of the pool succeeds and keeps the set's invariant. -/
theorem releaseRef_spec (h : q.set.Rep) (hN : N < 2 ^ 32) (hK : 1 ≤ stateCount) {handle : Nat}
    (hw : slotIndex handle < N) :
    ∃ q', q.releaseRef handle = some q' ∧ q'.set.Rep ∧ q'.obj = q.obj := by
  obtain ⟨set, hpush, hrep, -⟩ := SparseSet.push_spec h hN hK hw
  by_cases hc : q.refCount (slotIndex handle) = 1
  · refine ⟨⟨set, upd q.refCount (slotIndex handle) (sub64 1 1), q.obj⟩, ?_, hrep, rfl⟩
    simp only [releaseRef, rd_of_lt hw, wr_of_lt hw, hc, hpush, Option.bind_eq_bind,
      Option.bind_some, if_true]
    rfl
  · refine ⟨⟨q.set, upd q.refCount (slotIndex handle) (sub64 (q.refCount (slotIndex handle)) 1),
      q.obj⟩, ?_, h, rfl⟩
    simp only [releaseRef, rd_of_lt hw, wr_of_lt hw, Option.bind_eq_bind, Option.bind_some, if_neg hc]
    rfl

/-! ### Two pools -/

/-- Two pools that differ in their objects only. -/
def Alike (q₁ q₂ : SparsePool α N stateCount) : Prop :=
  q₁.set = q₂.set ∧ q₁.refCount = q₂.refCount

variable {q₁ q₂ : SparsePool α N stateCount}

theorem acquire_agree (h : Alike q₁ q₂) (init : α → α) (state : Nat) :
    Agree (fun a b => Alike a.1 b.1 ∧ a.2 = b.2) (q₁.acquire init state) (q₂.acquire init state) := by
  obtain ⟨set, refCount, o₁⟩ := q₁
  obtain ⟨_, _, o₂⟩ := q₂
  obtain ⟨rfl, rfl⟩ := h
  simp only [acquire]
  refine Agree.bind (Agree.same (R := Eq) (fun _ => rfl) (set.pop state)) ?_
  rintro ⟨set', handle⟩ _ rfl
  dsimp only
  split_ifs with hv
  · have hw : slotIndex handle < N := by
      by_contra hout
      simp [SparseSet.isValid, hout] at hv
    simp only [rd_of_lt hw, wr_of_lt hw, addRef, Option.bind_eq_bind, Option.bind_some]
    exact .some ⟨⟨rfl, rfl⟩, rfl⟩
  · exact .some ⟨⟨rfl, rfl⟩, rfl⟩

theorem releaseRef_agree (h : Alike q₁ q₂) (handle : Nat) :
    Agree Alike (q₁.releaseRef handle) (q₂.releaseRef handle) := by
  obtain ⟨set, refCount, o₁⟩ := q₁
  obtain ⟨_, _, o₂⟩ := q₂
  obtain ⟨rfl, rfl⟩ := h
  simp only [releaseRef]
  refine Agree.bind (Agree.same (R := Eq) (fun _ => rfl) _) ?_
  rintro count _ rfl
  refine Agree.bind (Agree.same (R := Eq) (fun _ => rfl) _) ?_
  rintro refCount' _ rfl
  split_ifs with hc
  · refine Agree.bind (Agree.same (R := Eq) (fun _ => rfl) _) ?_
    rintro set' _ rfl
    exact .some ⟨rfl, rfl⟩
  · exact .some ⟨rfl, rfl⟩

end SparsePool

end IocpServer
