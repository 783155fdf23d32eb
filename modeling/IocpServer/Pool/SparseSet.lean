import IocpServer.Common.Words
import IocpServer.Support.Loop

/-!
# Pool — SparseSet

`Common/Pool/SparseSet.hpp`.  The slots `0, …, N − 1` are divided by state: `dense` lists them in
the order of their states, `cursor` cuts that list, and `sparse` says for each slot where it is,
which state it is in and how often it has been recycled.

Every operation is `none` on an array access out of range.  The log lines are left out: nothing
reads them.
-/

namespace IocpServer

/-- `kInvalidHandle`, `static_cast<uint64_t>(-1)`. -/
def kInvalidHandle : Nat := 2 ^ 64 - 1

/-- `kIndexShift`. -/
def kIndexShift : Nat := 32

/-- The slot index of a handle, `static_cast<uint32_t>(handle)`. -/
def slotIndex (handle : Nat) : Nat := u32 handle

/-- The generation of a handle, `static_cast<uint32_t>(handle >> kIndexShift)`. -/
def slotGeneration (handle : Nat) : Nat := u32 (handle >>> kIndexShift)

/-- A generation in the upper half and a slot index in the lower. -/
def packHandle (generation who : Nat) : Nat := u64 (generation <<< kIndexShift) ||| who

theorem packHandle_eq {g w : Nat} (hg : g < 2 ^ 32) (hw : w < 2 ^ 32) :
    packHandle g w = g * 2 ^ 32 + w := by
  have hlt : g * 2 ^ 32 < 2 ^ 64 := by omega
  rw [packHandle, kIndexShift, Nat.shiftLeft_eq, u64_of_lt hlt, ← Nat.shiftLeft_eq,
    ← Nat.shiftLeft_add_eq_or_of_lt hw]

theorem slotIndex_packHandle {g w : Nat} (hg : g < 2 ^ 32) (hw : w < 2 ^ 32) :
    slotIndex (packHandle g w) = w := by
  rw [packHandle_eq hg hw, slotIndex, u32]; omega

theorem slotGeneration_packHandle {g w : Nat} (hg : g < 2 ^ 32) (hw : w < 2 ^ 32) :
    slotGeneration (packHandle g w) = g := by
  rw [packHandle_eq hg hw, slotGeneration, kIndexShift, Nat.shiftRight_eq_div_pow, u32]; omega

theorem packHandle_lt {g w : Nat} (hg : g < 2 ^ 32) (hw : w < 2 ^ 32) : packHandle g w < 2 ^ 64 := by
  rw [packHandle_eq hg hw]
  omega

/-- No slot of a set of fewer than `2 ^ 32` slots has the invalid handle. -/
theorem packHandle_ne_invalid {g w N : Nat} (hg : g < 2 ^ 32) (hw : w < N) (hN : N < 2 ^ 32) :
    packHandle g w ≠ kInvalidHandle := by
  rw [packHandle_eq hg (hw.trans hN), kInvalidHandle]; omega

/-- `SparseSet::Slot`. -/
structure SparseSet.Slot where
  where_ : Nat
  generation : Nat
  state : Nat

/-- `SparseSet<N, stateCount>`: `sparse_` and `dense_` of length `N`, `cursor_` of length
`stateCount + 1`. -/
structure SparseSet (N stateCount : Nat) where
  sparse : Nat → SparseSet.Slot
  dense : Nat → Nat
  cursor : Nat → Nat

namespace SparseSet

variable {N stateCount : Nat}

/-- The constructor: every slot in state `0`, at its own index. -/
def new (N stateCount : Nat) : SparseSet N stateCount where
  sparse i := ⟨u32 i, 0, 0⟩
  dense i := u32 i
  cursor i := if i = 0 then 0 else u32 N

/-- `GetHandle`: the generation in the upper half, the slot in the lower. -/
def getHandle (s : SparseSet N stateCount) (who : Nat) : Option Nat := do
  let slot ← rd N s.sparse who
  return packHandle slot.generation who

/-- `IsValid`. -/
def isValid (s : SparseSet N stateCount) (handle : Nat) : Bool :=
  slotIndex handle < N && (s.sparse (slotIndex handle)).generation == slotGeneration handle

/-- `GetState`. -/
def getState (s : SparseSet N stateCount) (handle : Nat) : Option Nat := do
  let slot ← rd N s.sparse (slotIndex handle)
  return slot.state

/-- The exchange that `IncrementState` and `DecrementState` share: `std::swap` on `dense_`, then
the two back pointers. -/
def swapDense (s : SparseSet N stateCount) (where_ swapWith : Nat) :
    Option (SparseSet N stateCount) := do
  let a ← rd N s.dense where_
  let b ← rd N s.dense swapWith
  let dense ← wr N s.dense where_ b
  let dense ← wr N dense swapWith a
  let v ← rd N dense where_
  let slot ← rd N s.sparse v
  let sparse ← wr N s.sparse v { slot with where_ := u32 where_ }
  let v ← rd N dense swapWith
  let slot ← rd N sparse v
  let sparse ← wr N sparse v { slot with where_ := u32 swapWith }
  return { s with sparse, dense }

/-- `IncrementState`: the slot changes places with the last of its bucket, and the cut moves left
over it. -/
def incrementState (s : SparseSet N stateCount) (handle : Nat) :
    Option (SparseSet N stateCount) := do
  let who := slotIndex handle
  let slot ← rd N s.sparse who
  if stateCount - 1 ≤ slot.state then
    return s
  else
    let nextState := slot.state + 1
    let cut ← rd (stateCount + 1) s.cursor nextState
    let swapWith := sub32 cut 1
    let s ← s.swapDense slot.where_ swapWith
    let cut ← rd (stateCount + 1) s.cursor nextState
    let cursor ← wr (stateCount + 1) s.cursor nextState (sub32 cut 1)
    let slot ← rd N s.sparse who
    let sparse ← wr N s.sparse who { slot with state := nextState }
    return { s with sparse, cursor }

/-- `DecrementState`: the slot changes places with the first of its bucket, and the cut moves
right over it. -/
def decrementState (s : SparseSet N stateCount) (handle : Nat) :
    Option (SparseSet N stateCount) := do
  let who := slotIndex handle
  let slot ← rd N s.sparse who
  if slot.state = 0 then
    return s
  else
    let currentState := slot.state
    let prevState := currentState - 1
    let swapWith ← rd (stateCount + 1) s.cursor currentState
    let s ← s.swapDense slot.where_ swapWith
    let cut ← rd (stateCount + 1) s.cursor currentState
    let cursor ← wr (stateCount + 1) s.cursor currentState (u32 (cut + 1))
    let slot ← rd N s.sparse who
    let sparse ← wr N s.sparse who { slot with state := prevState }
    return { s with sparse, cursor }

/-- The body of `while (sparse_[who].state_ < newState) IncrementState(handle)`. -/
def raiseBody (handle newState : Nat) (s : SparseSet N stateCount) :
    Option (Loop.Pass (SparseSet N stateCount) (SparseSet N stateCount)) := do
  let slot ← rd N s.sparse (slotIndex handle)
  if slot.state < newState then
    return .again (← s.incrementState handle)
  else
    return .leave s

/-- The body of `while (sparse_[who].state_ > newState) DecrementState(handle)`. -/
def lowerBody (handle newState : Nat) (s : SparseSet N stateCount) :
    Option (Loop.Pass (SparseSet N stateCount) (SparseSet N stateCount)) := do
  let slot ← rd N s.sparse (slotIndex handle)
  if newState < slot.state then
    return .again (← s.decrementState handle)
  else
    return .leave s

/-- `MoveToState`, with at most `fuel` passes through each of its two loops. -/
def moveToStateWithin (fuel : Nat) (s : SparseSet N stateCount) (handle newState : Nat) :
    Option (SparseSet N stateCount) :=
  if stateCount ≤ newState then
    some s
  else do
    let s ← Loop.run (raiseBody handle newState) fuel s
    Loop.run (lowerBody handle newState) fuel s

/-- `MoveToState`.  `stateCount` passes are enough (`moveToState_spec`), and more change nothing
(`moveToStateWithin_eq`). -/
def moveToState (s : SparseSet N stateCount) (handle newState : Nat) :
    Option (SparseSet N stateCount) :=
  s.moveToStateWithin stateCount handle newState

/-- `Pop`: the set after the call and the handle returned. -/
def pop (s : SparseSet N stateCount) (state : Nat) : Option (SparseSet N stateCount × Nat) :=
  if stateCount ≤ state then
    some (s, kInvalidHandle)
  else do
    let c₀ ← rd (stateCount + 1) s.cursor 0
    let c₁ ← rd (stateCount + 1) s.cursor 1
    if c₀ = c₁ then
      return (s, kInvalidHandle)
    else
      let handle ← s.getHandle (← rd N s.dense c₀)
      let s ← s.moveToState handle state
      return (s, handle)

/-- `Push`. -/
def push (s : SparseSet N stateCount) (handle : Nat) : Option (SparseSet N stateCount) := do
  let who := slotIndex handle
  let s ← s.moveToState handle 0
  let slot ← rd N s.sparse who
  let sparse ← wr N s.sparse who { slot with generation := u32 (slot.generation + 1) }
  return { s with sparse }

/-- `GetIndicesInState`. -/
def getIndicesInState (s : SparseSet N stateCount) (state : Nat) : Option (List Nat) :=
  if stateCount ≤ state then
    some []
  else do
    let lo ← rd (stateCount + 1) s.cursor state
    let hi ← rd (stateCount + 1) s.cursor (state + 1)
    (List.range' lo (hi - lo)).mapM fun i => do s.getHandle (← rd N s.dense i)

end SparseSet

end IocpServer
