import IocpServer.Pool.SparseSet
import Mathlib.Logic.Function.Basic

/-!
# Pool — SharedPoolPtr

`Common/Pool/SharedPoolPtr.hpp` over `SparsePool::Acquire`, `AddRef` and `ReleaseRef`, by any number
of threads at once.  A pointer object is known by its address; the operation in progress on it is
the `Pc` beside its fields, and `run` takes that operation one atomic step further.  Which thread
runs an operation does not matter.

The critical sections of `cs_` are one step each where they hold one access to the set, and `lock`
says which operation is inside `Acquire`'s.  `pool_.Release(idx)` and the objects are left out, as
is a slot's own `handle_`: no count depends on them.  There is no post-release callback.
-/

namespace IocpServer

/-- What an operation still does when its reference is gone. -/
inductive After (ι : Type) where
  /-- `operator=(const SharedPoolPtr&)`: nothing. -/
  | done
  /-- `operator=(SharedPoolPtr&&)`: takes over `other`. -/
  | take (other : ι)
  /-- `Reset`: clears the fields. -/
  | reset
  /-- `~SharedPoolPtr`: the object is gone. -/
  | destroy
  deriving DecidableEq

/-- Where the operation in progress on a pointer object stands: its next atomic step. -/
inductive Pc (ι : Type) where
  | idle
  /-- `Acquire`: the lock, and `Pop`. -/
  | acquire (state : Nat)
  /-- `Acquire`: `Slot::Init`, and the unlock. -/
  | init (handle : Nat)
  /-- `Acquire`: `SharedPoolPtr(this, handle)`. -/
  | construct (handle : Nat)
  /-- A copy: `pool_ = other.pool_`. -/
  | copyPool (other : ι) (current : Option Nat)
  /-- A copy: `handle_ = other.handle_`. -/
  | copyHandle (other : ι) (current : Option Nat)
  /-- A copy: `if (pool_) pool_->AddRef(handle_)`. -/
  | addRef (other : ι) (current : Option Nat)
  /-- `ReleaseRef`: the `fetch_sub`. -/
  | release (handle : Nat) (after : After ι)
  /-- `ReleaseRef`: the lock, and `Push`. -/
  | push (handle : Nat) (after : After ι)
  /-- A move: `pool_ = other.pool_`. -/
  | takePool (other : ι)
  /-- A move: `handle_ = other.handle_`. -/
  | takeHandle (other : ι)
  /-- A move: `other.pool_ = nullptr`. -/
  | leavePool (other : ι)
  /-- A move: `other.handle_ = kInvalidHandle`. -/
  | leaveHandle (other : ι)
  /-- `Reset`: `pool_ = nullptr`. -/
  | clearPool
  /-- `Reset`: `handle_ = kInvalidHandle`. -/
  | clearHandle
  deriving DecidableEq

/-- `SharedPoolPtr`: `pool` says whether `pool_` is not null, and `live` whether the object exists. -/
structure SharedPoolPtr (ι : Type) where
  live : Bool
  pool : Bool
  handle : Nat
  pc : Pc ι

namespace SharedPoolPtr

variable {ι : Type}

/-- No object. -/
def dead : SharedPoolPtr ι := ⟨false, false, kInvalidHandle, .idle⟩

/-- `SharedPoolPtr(nullptr)`. -/
def null : SharedPoolPtr ι := ⟨true, false, kInvalidHandle, .idle⟩

/-- An object whose constructor goes on at `pc`. -/
def constructing (pc : Pc ι) : SharedPoolPtr ι := ⟨true, false, kInvalidHandle, pc⟩

/-- The reference that `operator=(const SharedPoolPtr&)` saves to release it. -/
def current (p : SharedPoolPtr ι) : Option Nat := if p.pool then some p.handle else none

/-- `if (pool_) pool_->ReleaseRef(handle_)`, and then `after`. -/
def andThen (p : SharedPoolPtr ι) : After ι → SharedPoolPtr ι
  | .done => { p with pc := .idle }
  | .take other => { p with pc := .takePool other }
  | .reset => { p with pc := .clearPool }
  | .destroy => dead

def releaseThen (p : SharedPoolPtr ι) (after : After ι) : SharedPoolPtr ι :=
  if p.pool then { p with pc := .release p.handle after } else p.andThen after

/-- The next step after the `AddRef` of a copy: `if (currentPool) …`. -/
def copied (p : SharedPoolPtr ι) : Option Nat → SharedPoolPtr ι
  | some handle => { p with pc := .release handle .done }
  | none => { p with pc := .idle }

end SharedPoolPtr

/-- The pool and every pointer object.  `acquired` and `pushed` count, for each slot, the `Pop` and
`Push` calls on it so far. -/
structure Pointers (ι : Type) (N stateCount : Nat) where
  set : SparseSet N stateCount
  refCount : Nat → Nat
  lock : Option ι
  ptr : ι → SharedPoolPtr ι
  acquired : Nat → Nat
  pushed : Nat → Nat

namespace Pointers

variable {ι : Type} [DecidableEq ι] {N stateCount : Nat}

/-- A new pool and the objects `ptr`. -/
def new (N stateCount : Nat) (ptr : ι → SharedPoolPtr ι) : Pointers ι N stateCount :=
  ⟨.new N stateCount, fun _ => 0, none, ptr, fun _ => 0, fun _ => 0⟩

/-- The object at `a` becomes `p`. -/
def put (s : Pointers ι N stateCount) (a : ι) (p : SharedPoolPtr ι) : Pointers ι N stateCount :=
  { s with ptr := Function.update s.ptr a p }

/-- `AddRef`. -/
def addRef (s : Pointers ι N stateCount) (handle : Nat) : Option (Pointers ι N stateCount) := do
  let count ← rd N s.refCount (slotIndex handle)
  let refCount ← wr N s.refCount (slotIndex handle) (u64 (count + 1))
  return { s with refCount }

/-- The next step of the operation in progress on the object at `a`. -/
def run (s : Pointers ι N stateCount) (a : ι) : Option (Pointers ι N stateCount) :=
  let p := s.ptr a
  match p.pc with
  | .idle => none
  | .acquire state => do
      let (set, handle) ← s.set.pop state
      if set.isValid handle then
        return { s with
          set, lock := some a,
          acquired := upd s.acquired (slotIndex handle) (s.acquired (slotIndex handle) + 1),
          ptr := Function.update s.ptr a { p with pc := .init handle } }
      else
        return { s with set, ptr := Function.update s.ptr a .null }
  | .init handle => do
      let refCount ← wr N s.refCount (slotIndex handle) 0
      return { s with
        refCount, lock := none, ptr := Function.update s.ptr a { p with pc := .construct handle } }
  | .construct handle => do
      let s ← s.addRef handle
      return s.put a ⟨true, true, handle, .idle⟩
  | .copyPool other current =>
      some (s.put a { p with pool := (s.ptr other).pool, pc := .copyHandle other current })
  | .copyHandle other current =>
      some (s.put a { p with handle := (s.ptr other).handle, pc := .addRef other current })
  | .addRef _ current => do
      let s ← if p.pool then s.addRef p.handle else some s
      return s.put a (p.copied current)
  | .release handle after => do
      let count ← rd N s.refCount (slotIndex handle)
      let refCount ← wr N s.refCount (slotIndex handle) (sub64 count 1)
      let p := if count = 1 then { p with pc := .push handle after } else p.andThen after
      return { s with refCount, ptr := Function.update s.ptr a p }
  | .push handle after => do
      let set ← s.set.push handle
      return { s with
        set, pushed := upd s.pushed (slotIndex handle) (s.pushed (slotIndex handle) + 1),
        ptr := Function.update s.ptr a (p.andThen after) }
  | .takePool other =>
      some (s.put a { p with pool := (s.ptr other).pool, pc := .takeHandle other })
  | .takeHandle other =>
      some (s.put a { p with handle := (s.ptr other).handle, pc := .leavePool other })
  | .leavePool other =>
      some ((s.put other { s.ptr other with pool := false }).put a { p with pc := .leaveHandle other })
  | .leaveHandle other =>
      some ((s.put other { s.ptr other with handle := kInvalidHandle }).put a { p with pc := .idle })
  | .clearPool => some (s.put a { p with pool := false, pc := .clearHandle })
  | .clearHandle => some (s.put a { p with handle := kInvalidHandle, pc := .idle })

/-- An operation is started on the object at `a`, or the one in progress goes on. -/
inductive Event (ι : Type) where
  | null (a : ι)
  | acquire (a : ι) (state : Nat)
  | copy (a other : ι)
  | copyAssign (a other : ι)
  | move (a other : ι)
  | moveAssign (a other : ι)
  | reset (a : ι)
  | destroy (a : ι)
  | run (a : ι)

def step (s : Pointers ι N stateCount) : Event ι → Option (Pointers ι N stateCount)
  | .null a => some (s.put a .null)
  | .acquire a state => some (s.put a (.constructing (.acquire state)))
  | .copy a other => some (s.put a (.constructing (.copyPool other none)))
  | .copyAssign a other =>
      some (if a = other then s
        else s.put a { s.ptr a with pc := .copyPool other (s.ptr a).current })
  | .move a other => some (s.put a (.constructing (.takePool other)))
  | .moveAssign a other =>
      some (if a = other then s else s.put a ((s.ptr a).releaseThen (.take other)))
  | .reset a => some (s.put a ((s.ptr a).releaseThen .reset))
  | .destroy a => some (s.put a ((s.ptr a).releaseThen .destroy))
  | .run a => s.run a

end Pointers

end IocpServer
