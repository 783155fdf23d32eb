import IocpServer.Packet.Relay
import IocpServer.Packet.Welcome

/-!
# Packet — Blocks

What a call of `Execute` leaves of the packet pool, and the packets of the queued tasks in it.

* `withPacket_kept`: the life of one packet.
* `execute_keeps`: the blocks that were free are free again, and those that are out are as they were.
* `Queued`: a queue whose tasks have all the blocks that are out, with what `AcquirePacket`, `Execute`
  and the end of a task make of it.
-/

namespace IocpServer

namespace SparsePool

variable {α : Type} {N stateCount : Nat} {own : Option Nat} {q q' q'' : SparsePool α N stateCount}

/-- From `q` to `q'` the same slots stay out, with their counts and generations, and their objects
but for that of the slot `own`. -/
structure Kept (own : Option Nat) (q q' : SparsePool α N stateCount) : Prop where
  rep : q'.set.Rep
  free : q'.free = q.free
  out : ∀ slot < N, slot ∉ q.free →
    q'.refCount slot = q.refCount slot ∧ q'.set.cells slot = q.set.cells slot
  obj : ∀ slot < N, slot ∉ q.free → own ≠ some slot → q'.obj slot = q.obj slot

theorem Kept.refl (h : q.set.Rep) : Kept own q q :=
  ⟨h, rfl, fun _ _ _ => ⟨rfl, rfl⟩, fun _ _ _ _ => rfl⟩

theorem Kept.trans (h : Kept own q q') (h' : Kept own q' q'') : Kept own q q'' where
  rep := h'.rep
  free := h'.free.trans h.free
  out slot hs hf := by
    obtain ⟨hr, hc⟩ := h.out slot hs hf
    obtain ⟨hr', hc'⟩ := h'.out slot hs (h.free ▸ hf)
    exact ⟨hr'.trans hr, hc'.trans hc⟩
  obj slot hs hf ho := (h'.obj slot hs (h.free ▸ hf) ho).trans (h.obj slot hs hf ho)

theorem Kept.weaken (h : Kept none q q') (own : Option Nat) : Kept own q q' :=
  ⟨h.rep, h.free, h.out, fun slot hs hf _ => h.obj slot hs hf (by simp)⟩

/-- `Acquire` takes one slot out of state `0`. -/
theorem acquire_cells (h : q.set.Rep) (hN : N < 2 ^ 32) {state handle : Nat}
    (hs : state < stateCount) {init : α → α} (hacq : q.acquire init state = some (q', some handle)) :
    ∀ slot, slot ≠ slotIndex handle → q'.set.cells slot = q.set.cells slot := by
  obtain ⟨⟨set, handle'⟩, hpop, hacq⟩ := Option.bind_eq_some_iff.mp hacq
  dsimp only at hacq
  split at hacq
  · obtain ⟨x, -, hacq⟩ := Option.bind_eq_some_iff.mp hacq
    obtain ⟨obj, -, hacq⟩ := Option.bind_eq_some_iff.mp hacq
    obtain ⟨refCount, -, hacq⟩ := Option.bind_eq_some_iff.mp hacq
    obtain ⟨p, hadd, hacq⟩ := Option.bind_eq_some_iff.mp hacq
    obtain ⟨count, -, hadd⟩ := Option.bind_eq_some_iff.mp hadd
    obtain ⟨counts, -, hadd⟩ := Option.bind_eq_some_iff.mp hadd
    cases hadd
    cases hacq
    rcases SparseSet.pop_spec h hN hs with ⟨w, set', hw, -, hpop', -, hcells⟩ | ⟨hpop', -⟩
    · rw [hpop] at hpop'
      cases hpop'
      intro slot hne
      rw [h.slotIndex_handle hN hw] at hne
      show set.cells slot = _
      rw [hcells, upd_other hne]
    · rw [hpop] at hpop'
      cases hpop'
      exact fun _ _ => rfl
  · cases hacq

/-- The last reference to a slot frees it. -/
theorem release_spec (h : q.set.Rep) (hN : N < 2 ^ 32) (hK : 1 ≤ stateCount) {handle : Nat}
    (hw : slotIndex handle < N) (hc : q.refCount (slotIndex handle) = 1)
    (hrel : q.releaseRef handle = some q') :
    q'.set.Rep ∧ q'.obj = q.obj ∧ q'.refCount = upd q.refCount (slotIndex handle) (sub64 1 1) ∧
      q'.set.cells = upd q.set.cells (slotIndex handle) (q.set.cells (slotIndex handle)).recycle := by
  obtain ⟨set, hpush, hrep, hcells⟩ := SparseSet.push_spec h hN hK hw
  simp only [releaseRef, rd_of_lt hw, wr_of_lt hw, hc, hpush, Option.bind_eq_bind,
    Option.bind_some, if_true] at hrel
  cases hrel
  exact ⟨hrep, rfl, rfl, hcells⟩

/-- **A slot taken and given back.**  What was done to the others meanwhile is all that has been
done. -/
theorem Kept.returned (h : q.set.Rep) (hN : N < 2 ^ 32) (hK : 1 < stateCount) {init : α → α}
    {handle : Nat} {q₁ q₂ : SparsePool α N stateCount}
    (hacq : q.acquire init 1 = some (q₁, some handle)) (hkept : Kept (some (slotIndex handle)) q₁ q₂)
    (hrel : q₂.releaseRef handle = some q') : Kept none q q' := by
  rcases acquire_spec h hN hK (by decide) init with
    ⟨w, p, hw, hacq', -, hfree, hcount, hobj⟩ | ⟨-, hacq'⟩
  swap
  · rw [hacq] at hacq'
    cases hacq'
  obtain ⟨hwN, hw0⟩ := mem_free.mp hw
  have hcells := acquire_cells h hN hK hacq
  rw [hacq] at hacq'
  obtain ⟨rfl, hhandle⟩ := Prod.mk.inj (Option.some.inj hacq')
  have hidx : slotIndex handle = w := by
    rw [Option.some.inj hhandle]
    exact h.slotIndex_handle hN hwN
  rw [hidx] at hcells hkept
  have hout : w ∉ q₁.free := by
    rw [hfree]
    exact Finset.notMem_erase w _
  have hone : q₂.refCount (slotIndex handle) = 1 := by
    rw [hidx, (hkept.out w hwN hout).1, hcount, upd_same]
  obtain ⟨hrep, hobj', hcount', hcells'⟩ :=
    release_spec hkept.rep hN hK.le (hidx.symm ▸ hwN) hone hrel
  rw [hidx] at hcount' hcells'
  -- a slot that is out is not the one that was taken
  have hother : ∀ slot, slot ∉ q.free → slot ≠ w ∧ slot ∉ q₁.free := by
    intro slot hs
    refine ⟨fun e => hs (e ▸ hw), fun hs' => hs ?_⟩
    rw [hfree] at hs'
    exact Finset.mem_of_mem_erase hs'
  refine ⟨hrep, ?_, fun slot hs hf => ?_, fun slot hs hf _ => ?_⟩
  · ext slot
    rw [mem_free, hcells']
    by_cases hne : slot = w
    · subst hne
      simp [hwN, hw]
    · have hsame : slot ∈ q₂.free ↔ slot ∈ q.free := by
        rw [hkept.free, hfree, Finset.mem_erase]
        exact and_iff_right hne
      rw [upd_other hne, ← mem_free]
      exact hsame
  · obtain ⟨hne, hf₁⟩ := hother slot hf
    obtain ⟨hr, hc⟩ := hkept.out slot hs hf₁
    rw [hcount', hcells', upd_other hne, upd_other hne, hr, hc, hcount, upd_other hne]
    exact ⟨rfl, hcells slot hne⟩
  · obtain ⟨hne, hf₁⟩ := hother slot hf
    rw [hobj', hkept.obj slot hs hf₁ (by simpa using hne.symm), hobj, upd_other hne]

end SparsePool

namespace PacketPool

open SparsePool (Kept)

variable {β : Type} {q q' : PacketPool}

/-- A block filled. -/
theorem fill_kept (h : q.set.Rep) {slot : Nat} {write : PacketBlock → Option PacketBlock}
    {bytes : List Byte} (hfill : fill q slot write = some (q', bytes)) : Kept (some slot) q q' := by
  obtain ⟨b, -, hfill⟩ := Option.bind_eq_some_iff.mp hfill
  obtain ⟨c, -, hfill⟩ := Option.bind_eq_some_iff.mp hfill
  cases hfill
  refine ⟨h, rfl, fun _ _ _ => ⟨rfl, rfl⟩, fun k _ _ hk => upd_other ?_ _ _⟩
  rintro rfl
  exact hk rfl

theorem withPacket_kept (h : q.set.Rep) {body : PacketPool → Nat → Option (PacketPool × β)}
    (hb : ∀ {p p' slot r}, p.set.Rep → body p slot = some (p', r) → Kept (some slot) p p') {r : β}
    (hrun : withPacket q body = some (q', r)) : Kept none q q' := by
  obtain ⟨⟨q₁, packet⟩, hacq, hrun⟩ := Option.bind_eq_some_iff.mp hrun
  obtain ⟨handle, hpacket, hrun⟩ := Option.bind_eq_some_iff.mp hrun
  obtain ⟨⟨q₂, r'⟩, hbody, hrun⟩ := Option.bind_eq_some_iff.mp hrun
  obtain ⟨q₃, hrel, hrun⟩ := Option.bind_eq_some_iff.mp hrun
  cases hrun
  subst hpacket
  have hlt : Config.kMaxPacketCount < 2 ^ 32 := by decide
  refine Kept.returned h hlt (by decide) hacq (hb ?_ hbody) hrel
  rcases SparsePool.acquire_spec h hlt (by decide : 1 < 2) (by decide) id with
    ⟨w, p, -, hacq', hrep, -⟩ | ⟨-, hacq'⟩
  · rw [hacq] at hacq'
    cases hacq'
    exact hrep
  · rw [hacq] at hacq'
    cases hacq'

end PacketPool

namespace PacketHandler

open PacketPool SparsePool

variable {queued : Nat → Bool} {q q' : PacketPool} {w w' : Server} {self : Nat} {header : List Byte}

theorem relay_kept {fillIn : Nat → PacketBlock → Option PacketBlock} (h : q.set.Rep)
    (hrun : relay queued fillIn q w self = some (q', w')) : Kept none q q' := by
  refine withPacket_kept h (fun hrep hbody => ?_) hrun
  obtain ⟨session, -, hbody⟩ := Option.bind_eq_some_iff.mp hbody
  obtain ⟨⟨p, packet⟩, hfill, hbody⟩ := Option.bind_eq_some_iff.mp hbody
  obtain ⟨w₁, -, hbody⟩ := Option.bind_eq_some_iff.mp hbody
  cases hbody
  exact fill_kept hrep hfill

theorem handleRegister_kept (h : q.set.Rep)
    (hrun : handleRegister queued q w self header = some (q', w')) : Kept none q q' := by
  obtain ⟨⟨userId, password⟩, -, hrun⟩ := Option.bind_eq_some_iff.mp hrun
  refine withPacket_kept h (fun hrep hbody => ?_) hrun
  obtain ⟨⟨p, response⟩, hfill, hbody⟩ := Option.bind_eq_some_iff.mp hbody
  obtain ⟨w₁, -, hbody⟩ := Option.bind_eq_some_iff.mp hbody
  cases hbody
  exact fill_kept hrep hfill

theorem handleLogin_kept (h : q.set.Rep)
    (hrun : handleLogin queued q w self header = some (q', w')) : Kept none q q' := by
  obtain ⟨⟨userId, password⟩, -, hrun⟩ := Option.bind_eq_some_iff.mp hrun
  refine withPacket_kept h (fun hrep hbody => ?_) hrun
  obtain ⟨session, -, hbody⟩ := Option.bind_eq_some_iff.mp hbody
  obtain ⟨⟨w₁, success⟩, -, hbody⟩ := Option.bind_eq_some_iff.mp hbody
  obtain ⟨⟨p, response⟩, hfill, hbody⟩ := Option.bind_eq_some_iff.mp hbody
  obtain ⟨w₂, -, hbody⟩ := Option.bind_eq_some_iff.mp hbody
  cases hbody
  exact fill_kept hrep hfill

theorem handleLogout_kept (h : q.set.Rep)
    (hrun : handleLogout queued q w self header = some (q', w')) : Kept none q q' := by
  refine withPacket_kept h (fun hrep hbody => ?_) hrun
  obtain ⟨⟨p, response⟩, hfill, hbody⟩ := Option.bind_eq_some_iff.mp hbody
  obtain ⟨w₁, -, hbody⟩ := Option.bind_eq_some_iff.mp hbody
  obtain ⟨session, -, hbody⟩ := Option.bind_eq_some_iff.mp hbody
  obtain ⟨w₂, -, hbody⟩ := Option.bind_eq_some_iff.mp hbody
  cases hbody
  exact fill_kept hrep hfill

theorem handlers_kept {id : Nat}
    {handler : PacketPool → Server → Nat → List Byte → Option (PacketPool × Server)}
    (hh : handlers queued id = some handler) (h : q.set.Rep)
    (hrun : handler q w self header = some (q', w')) : Kept none q q' := by
  unfold handlers at hh
  split_ifs at hh <;> cases hh
  · exact relay_kept h (handleMove_eq q w self header ▸ hrun)
  · exact relay_kept h (handleChat_eq q w self header ▸ hrun)
  · exact handleRegister_kept h hrun
  · exact handleLogin_kept h hrun
  · exact handleLogout_kept h hrun

/-- **`Execute` gives back what it has taken**, if its packet fits in a block. -/
theorem execute_keeps (h : q.set.Rep) (hfit : headerSize header ≤ Config.kMaxPacketSize)
    (hrun : execute queued q w self header = some (q', w')) : Kept none q q' := by
  by_cases hid : PacketId.kCnt.toNat ≤ headerId header
  · rw [execute, if_pos hid] at hrun
    cases hrun
    exact .refl h
  · cases hh : handlers queued (headerId header) with
    | none =>
      rw [execute, if_neg hid, hh] at hrun
      cases hrun
      exact .refl h
    | some handler =>
      rw [execute, if_neg hid, hh] at hrun
      refine withPacket_kept h (fun hrep hbody => ?_) hrun
      obtain ⟨⟨p, packet⟩, hcopy, hbody⟩ := Option.bind_eq_some_iff.mp hbody
      rw [copyPacket_of_le _ _ hfit] at hcopy
      have hfilled := fill_kept hrep hcopy
      exact hfilled.trans ((handlers_kept hh hfilled.rep hbody).weaken _)

end PacketHandler

/-! ### Queued packets -/

namespace PacketPool

variable {κ : Type} {q q' : PacketPool} {tasks : List (κ × Nat)} {k : κ} {handle : Nat}

/-- The tasks of a queue have the blocks that are out, each its own, with the one reference to it. -/
structure Queued (q : PacketPool) (tasks : List (κ × Nat)) : Prop where
  rep : q.set.Rep
  out : ∀ task ∈ tasks, slotIndex task.2 < Config.kMaxPacketCount ∧ slotIndex task.2 ∉ q.free ∧
    q.refCount (slotIndex task.2) = 1
  nodup : (tasks.map fun task => slotIndex task.2).Nodup
  card : q.free.card + tasks.length = Config.kMaxPacketCount

/-- The packets in the blocks of the tasks. -/
def contents (q : PacketPool) (tasks : List (κ × Nat)) : List (κ × List Byte) :=
  tasks.map fun task => (task.1, (q.obj (slotIndex task.2)).sent)

theorem contents_congr (h : ∀ task ∈ tasks, q'.obj (slotIndex task.2) = q.obj (slotIndex task.2)) :
    contents q' tasks = contents q tasks := by
  refine List.map_congr_left fun task htask => ?_
  rw [h task htask]

/-- What takes and gives back other blocks leaves the queue as it is. -/
theorem Queued.kept (h : Queued q tasks) (hkept : SparsePool.Kept none q q') :
    Queued q' tasks ∧ contents q' tasks = contents q tasks := by
  refine ⟨⟨hkept.rep, fun task htask => ?_, h.nodup, ?_⟩, contents_congr fun task htask => ?_⟩
  · obtain ⟨hlt, hout, hone⟩ := h.out task htask
    refine ⟨hlt, ?_, ?_⟩
    · rw [hkept.free]
      exact hout
    · rw [(hkept.out _ hlt hout).1]
      exact hone
  · rw [hkept.free]
    exact h.card
  · obtain ⟨hlt, hout, -⟩ := h.out task htask
    exact hkept.obj _ hlt hout (by simp)

/-- A block that is acquired and filled. -/
def takePacket (q : PacketPool) (body : PacketPool → Nat → Option (PacketPool × List Byte)) :
    Option (PacketPool × Nat) := do
  let (q, packet) ← q.acquire id 1
  let handle ← packet
  let (q, _) ← body q (slotIndex handle)
  return (q, handle)

/-- `AcquirePacket(header)`. -/
def acquirePacket (q : PacketPool) (header : List Byte) : Option (PacketPool × Nat) :=
  takePacket q fun q slot => fill q slot (·.copy header)

/-- It is there if one is free. -/
theorem takePacket_some (h : q.set.Rep) (hfree : 1 ≤ q.free.card)
    {write : PacketBlock → Option PacketBlock} (hwrite : ∀ b, ∃ c, write b = some c) :
    ∃ q' handle, takePacket q (fun q slot => fill q slot write) = some (q', handle) := by
  have hlt : Config.kMaxPacketCount < 2 ^ 32 := by decide
  rcases SparsePool.acquire_spec h hlt (by decide : 1 < 2) (by decide) id with
    ⟨w, p, hw, hacq, -⟩ | ⟨hnone, -⟩
  · have hwN := (SparsePool.mem_free.mp hw).1
    obtain ⟨c, hc⟩ := hwrite (p.obj w)
    have hfill : fill p w write = _ := fill_some hwN hc
    refine ⟨{ p with obj := upd p.obj w c }, q.set.handle w, ?_⟩
    simp only [takePacket, hacq, h.slotIndex_handle hlt hwN, hfill, Option.bind_eq_bind,
      Option.bind_some]
    rfl
  · rw [hnone, Finset.card_empty] at hfree
    omega

/-- The order of the tasks does not matter. -/
theorem Queued.perm {tasks' : List (κ × Nat)} (h : Queued q tasks) (hp : tasks.Perm tasks') :
    Queued q tasks' :=
  ⟨h.rep, fun task htask => h.out task (hp.mem_iff.mpr htask), (hp.map _).nodup_iff.mp h.nodup,
    hp.length_eq ▸ h.card⟩

/-- A packet in its block. -/
theorem sent_copy {b c : PacketBlock} {packet : List Byte}
    (hp : kHeaderSize ≤ packet.length ∧ headerSize packet = packet.length)
    (h : b.copy packet = some c) : c.sent = packet := by
  have hfit : headerSize packet ≤ Config.kMaxPacketSize := by
    by_contra hlong
    rw [b.copy_fault (not_le.mp hlong)] at h
    cases h
  obtain ⟨c', rest, hc', hbytes⟩ := b.copy_accepted [] hp hfit
  rw [List.append_nil, h, Option.some.injEq] at hc'
  rw [PacketBlock.sent, hc', hbytes, headerSize_append rest hp.1, hp.2, List.take_left' rfl]

/-- **A block more.**  The blocks that are out stay as they are, and the new one has been filled. -/
theorem Queued.take (h : Queued q tasks) {write : PacketBlock → Option PacketBlock}
    (hrun : takePacket q (fun q slot => fill q slot write) = some (q', handle)) (k : κ) :
    Queued q' (tasks ++ [(k, handle)]) ∧
      (∀ task ∈ tasks, q'.obj (slotIndex task.2) = q.obj (slotIndex task.2)) ∧
      ∃ b, write b = some (q'.obj (slotIndex handle)) := by
  have hlt : Config.kMaxPacketCount < 2 ^ 32 := by decide
  obtain ⟨⟨q₁, packet⟩, hacq, hrun⟩ := Option.bind_eq_some_iff.mp hrun
  obtain ⟨handle', hhandle, hrun⟩ := Option.bind_eq_some_iff.mp hrun
  obtain ⟨⟨q₂, bytes⟩, hfill, hrun⟩ := Option.bind_eq_some_iff.mp hrun
  obtain ⟨rfl, rfl⟩ := Prod.mk.inj (Option.some.inj hrun)
  subst hhandle
  rcases SparsePool.acquire_spec h.rep hlt (by decide : 1 < 2) (by decide) id with
    ⟨w, p, hw, hacq', hrep, hfree, hcount, hobj⟩ | ⟨-, hacq'⟩
  swap
  · rw [hacq] at hacq'
    cases hacq'
  have hwN := (SparsePool.mem_free.mp hw).1
  rw [hacq] at hacq'
  obtain ⟨rfl, hhandle⟩ := Prod.mk.inj (Option.some.inj hacq')
  have hidx : slotIndex handle' = w := by
    rw [Option.some.inj hhandle]
    exact h.rep.slotIndex_handle hlt hwN
  rw [hidx] at hfill
  obtain ⟨b, -, hfill⟩ := Option.bind_eq_some_iff.mp hfill
  obtain ⟨c, hc, hfill⟩ := Option.bind_eq_some_iff.mp hfill
  cases hfill
  -- the block was free, and those of the queue are not
  have hother : ∀ task ∈ tasks, slotIndex task.2 ≠ w := by
    intro task htask e
    exact (h.out task htask).2.1 (e ▸ hw)
  have hsame : ∀ task ∈ tasks, upd q₁.obj w c (slotIndex task.2) = q.obj (slotIndex task.2) := by
    intro task htask
    rw [upd_other (hother task htask), hobj, upd_other (hother task htask)]
  have hnew : q₁.refCount (slotIndex handle') = 1 := by
    rw [hidx, hcount, upd_same]
  refine ⟨⟨hrep, fun task htask => ?_, ?_, ?_⟩, hsame, b, ?_⟩
  · rw [List.mem_append, List.mem_singleton] at htask
    rcases htask with htask | rfl
    · obtain ⟨hN, hout, hone⟩ := h.out task htask
      refine ⟨hN, fun hin => hout ?_, ?_⟩
      · have hin' : slotIndex task.2 ∈ q₁.free := hin
        rw [hfree] at hin'
        exact Finset.mem_of_mem_erase hin'
      · show q₁.refCount (slotIndex task.2) = 1
        rw [hcount, upd_other (hother task htask)]
        exact hone
    · refine ⟨hidx.symm ▸ hwN, fun hin => ?_, hnew⟩
      have hin' : slotIndex handle' ∈ q₁.free := hin
      rw [hfree, hidx] at hin'
      exact Finset.notMem_erase w _ hin'
  · rw [List.map_append, List.nodup_append]
    refine ⟨h.nodup, List.nodup_singleton _, fun a ha b hb => ?_⟩
    obtain ⟨task, htask, rfl⟩ := List.mem_map.mp ha
    rw [List.map_singleton, List.mem_singleton] at hb
    rw [hb, hidx]
    exact hother task htask
  · have hcard := h.card
    have herase := Finset.card_erase_add_one hw
    show q₁.free.card + (tasks ++ [(k, handle')]).length = Config.kMaxPacketCount
    rw [hfree, List.length_append, List.length_singleton]
    omega
  · show write b = some (upd q₁.obj w c (slotIndex handle'))
    rw [hidx, upd_same, hc]

/-- **`AcquirePacket`**, for a task that joins the queue. -/
theorem Queued.acquire (h : Queued q tasks) {packet : List Byte}
    (hp : kHeaderSize ≤ packet.length ∧ headerSize packet = packet.length)
    (hrun : acquirePacket q packet = some (q', handle)) (k : κ) :
    Queued q' (tasks ++ [(k, handle)]) ∧
      contents q' (tasks ++ [(k, handle)]) = contents q tasks ++ [(k, packet)] := by
  obtain ⟨hqueued, hsame, b, hb⟩ := h.take hrun k
  refine ⟨hqueued, ?_⟩
  rw [contents, List.map_append, List.map_singleton, sent_copy hp hb]
  exact congrArg (· ++ [(k, packet)]) (contents_congr hsame)

/-- **The end of a task** that has been taken off the queue. -/
theorem Queued.release (h : Queued q ((k, handle) :: tasks))
    (hrun : q.releaseRef handle = some q') : Queued q' tasks ∧ q'.obj = q.obj := by
  have hlt : Config.kMaxPacketCount < 2 ^ 32 := by decide
  obtain ⟨hwN, hout, hone⟩ := h.out _ List.mem_cons_self
  obtain ⟨hrep, hobj, hcount, hcells⟩ := SparsePool.release_spec h.rep hlt (by decide) hwN hone hrun
  have hnodup := h.nodup
  rw [List.map_cons, List.nodup_cons] at hnodup
  have hother : ∀ task ∈ tasks, slotIndex task.2 ≠ slotIndex handle := by
    intro task htask e
    exact hnodup.1 (List.mem_map.mpr ⟨task, htask, e⟩)
  have hfree : q'.free = insert (slotIndex handle) q.free := by
    ext slot
    rw [SparsePool.mem_free, hcells, Finset.mem_insert]
    by_cases hslot : slot = slotIndex handle
    · rw [hslot, upd_same, SparseSet.Cell.recycle_state]
      exact iff_of_true ⟨hwN, rfl⟩ (.inl rfl)
    · rw [upd_other hslot, ← SparsePool.mem_free]
      exact (or_iff_right hslot).symm
  refine ⟨⟨hrep, fun task htask => ?_, hnodup.2, ?_⟩, hobj⟩
  · obtain ⟨hN, hnot, hcnt⟩ := h.out task (List.mem_cons_of_mem _ htask)
    refine ⟨hN, ?_, ?_⟩
    · rw [hfree, Finset.mem_insert, not_or]
      exact ⟨hother task htask, hnot⟩
    · rw [hcount, upd_other (hother task htask)]
      exact hcnt
  · have hcard := h.card
    rw [List.length_cons] at hcard
    rw [hfree, Finset.card_insert_of_notMem hout]
    omega

end PacketPool

end IocpServer
