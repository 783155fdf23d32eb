import IocpServer.Packet.Blocks
import IocpServer.Packet.Exposure
import IocpServer.Server.Delivery

/-!
# Server — Posted

The packets of `Server/Delivery.lean` in their blocks.  `OnRecv` copies a packet to a block that it
takes out of the packet pool, the task it posts has the handle of that block, `Execute` finds the
packet there, and the block goes back when the task ends.  Sessions and threads step as in
`Delivery.step`.

All the while others take blocks and give them back: `Execute` for its copy, the handlers for their
replies, `Connect` for the welcome.  What they write into a block of their own is left open; the
second copy of a packet that is longer than a block, in `Execute`, is left out.

* `view_step`: as long as packets fit in a block and find one, the packets in the blocks are those
  posted, whatever happens to the other blocks.
* `posted_in_order`: what is executed of one incarnation is a prefix of the packets of its stream.
* `overwritten`: a packet that does not fit changes one that waits.
-/

namespace IocpServer

/-- The phase of a worker whose tasks are read as `f` reads them. -/
def WorkerPhase.map {τ υ : Type} (f : τ → υ) : WorkerPhase τ → WorkerPhase υ
  | .popping => .popping
  | .holding task => .holding (f task)
  | .executing task => .executing (f task)
  | .ended => .ended

/-- The task of a worker. -/
def WorkerPhase.task {τ : Type} : WorkerPhase τ → List τ
  | .holding task | .executing task => [task]
  | .popping | .ended => []

theorem WorkerPhase.map_held {τ υ : Type} (f : τ → υ) (p : WorkerPhase τ) :
    (p.map f).held = p.held.map f := by
  cases p <;> rfl

theorem WorkerPhase.map_congr {τ υ : Type} {f g : τ → υ} {p : WorkerPhase τ}
    (h : ∀ task ∈ p.task, f task = g task) : p.map f = p.map g := by
  cases p with
  | popping | ended => rfl
  | holding task => exact congrArg WorkerPhase.holding (h task List.mem_cons_self)
  | executing task => exact congrArg WorkerPhase.executing (h task List.mem_cons_self)

/-- The server, its tasks with the handles of their packets.  `others` is the blocks that are out
for anything but a task. -/
structure Posted (κ ι : Type) where
  incarnations : κ → Option Incarnation
  threads : ι → RecvPhase κ
  pool : PacketPool
  tasks : List (κ × Nat)
  isShuttingDown : Bool
  workers : Fin Config.kWorkerThreadCount → WorkerPhase (κ × Nat)
  others : List Nat
  executed : List (κ × List Byte)

namespace Posted

open PacketPool Delivery

variable {κ ι : Type}

/-- Nothing connected and nothing queued. -/
def start : Posted κ ι :=
  ⟨fun _ => none, fun _ => .idle, .blank 0, [], false, fun _ => .popping, [], []⟩

inductive Event (κ ι : Type) where
  | deliver (e : Delivery.Event κ ι)
  /-- `AcquirePacket` for a copy, a reply or a welcome, of which the block then is `b`. -/
  | take (b : PacketBlock)
  /-- The end of its `SharedPoolPtr`. -/
  | give (packet : Nat)

/-- What `Execute` finds of the packet of a task. -/
def packetOf (q : PacketPool) (task : κ × Nat) : κ × List Byte :=
  (task.1, (q.obj (slotIndex task.2)).sent)

/-- The server with its packets read where they are. -/
def view (s : Posted κ ι) : Delivery κ ι :=
  ⟨s.incarnations, s.threads, contents s.pool s.tasks, s.isShuttingDown,
    fun j => (s.workers j).map (packetOf s.pool), s.executed⟩

/-- What `OnRecv` of the incarnation `k` does with a packet. -/
def post (k : κ) : (PacketPool × List (κ × Nat)) × List (List Byte) → List Byte →
    Option ((PacketPool × List (κ × Nat)) × List (List Byte))
  | ((pool, tasks), handed), frame => do
    let (pool, packet) ← takePacket pool fun q slot => copyPacket q slot frame
    return ((pool, tasks ++ [(k, packet)]), handed ++ [frame])

section Step

variable [DecidableEq κ] [DecidableEq ι]

def setWorker (s : Posted κ ι) (j : Fin Config.kWorkerThreadCount) (p : WorkerPhase (κ × Nat)) :
    Posted κ ι :=
  { s with workers := Function.update s.workers j p }

/-- The pass of thread `i`. -/
def passed (s : Posted κ ι) (i : ι) (k : κ) (c : Incarnation) : Option (Posted κ ι) := do
  let pass ← Session.drainBody (post k) (c.session.recvOv, (s.pool, s.tasks), c.handed)
  match pass with
  | .again (ov, (pool, tasks), handed) =>
    let c := { c with session := { c.session with recvOv := ov }, handed }
    return { s with pool, tasks, incarnations := Function.update s.incarnations k (some c) }
  | .leave (_, _, ok) =>
    let phase := if ok then .drained k else .refused k
    return { s with threads := Function.update s.threads i phase }

def step (s : Posted κ ι) : Event κ ι → Option (Posted κ ι)
  | .take b => do
    let (pool, packet) ← takePacket s.pool fun q slot => fill q slot fun _ => some b
    return { s with pool, others := s.others ++ [packet] }
  | .give packet =>
    if packet ∈ s.others then do
      let pool ← s.pool.releaseRef packet
      return { s with pool, others := s.others.erase packet }
    else none
  | .deliver (.pass i) =>
    match s.threads i with
    | .draining k => do
      let c ← s.incarnations k
      s.passed i k c
    | _ => none
  | .deliver (.pop j) =>
    match s.workers j with
    | .popping =>
      if s.isShuttingDown then some (s.setWorker j .ended)
      else match s.tasks with
        | [] => none
        | task :: tasks => some ({ s with tasks }.setWorker j (.holding task))
    | _ => none
  | .deliver (.call j) =>
    match s.workers j with
    | .holding task =>
      let executed := s.executed ++ [packetOf s.pool task]
      some ({ s with executed }.setWorker j (.executing task))
    | _ => none
  | .deliver (.finish j) =>
    match s.workers j with
    | .executing task => do
      let pool ← s.pool.releaseRef task.2
      return { s with pool }.setWorker j .popping
    | _ => none
  | .deliver e => do
    let d ← s.view.step e
    return { s with
      incarnations := d.incarnations, threads := d.threads, isShuttingDown := d.isShuttingDown }

def Legit (s : Posted κ ι) : Event κ ι → Prop
  | .deliver e => s.view.Legit e
  | _ => True

instance (s : Posted κ ι) : DecidablePred s.Legit
  | .deliver e => inferInstanceAs (Decidable (s.view.Legit e))
  | .take _ | .give _ => inferInstanceAs (Decidable True)

end Step

/-- If the step posts a packet, that fits in a block and a block is free. -/
def Fits (s : Posted κ ι) : Event κ ι → Prop
  | .deliver (.pass i) => ∀ k c, s.threads i = .draining k → s.incarnations k = some c →
      WholePacket c.session.recvOv.window →
      headerSize c.session.recvOv.window ≤ Config.kMaxPacketSize ∧ 1 ≤ s.pool.free.card
  | _ => True

/-- The blocks of some tasks, and those that are out for anything else. -/
def blocks (tasks : List (κ × Nat)) (others : List Nat) : List (Option κ × Nat) :=
  tasks.map (fun task => (some task.1, task.2)) ++ others.map fun packet => (none, packet)

/-- All blocks that are out. -/
def out (s : Posted κ ι) : List (Option κ × Nat) :=
  blocks ((s.workers theWorker).task ++ s.tasks) s.others

/-- The blocks that are out are each one's own, and read in them the server is as it should be. -/
structure Inv [DecidableEq κ] (s : Posted κ ι) : Prop where
  queued : Queued s.pool s.out
  view : s.view.Inv

variable {s s' : Posted κ ι} {k : κ}

/-- The packets of the tasks are where they were, when the blocks that are out are as they were. -/
theorem packetOf_eq {pool : PacketPool}
    (h : ∀ task ∈ s.out, pool.obj (slotIndex task.2) = s.pool.obj (slotIndex task.2)) :
    contents pool s.tasks = contents s.pool s.tasks ∧
      ∀ j, (s.workers j).map (packetOf pool) = (s.workers j).map (packetOf s.pool) := by
  have hout : ∀ task ∈ (s.workers theWorker).task ++ s.tasks,
      pool.obj (slotIndex task.2) = s.pool.obj (slotIndex task.2) := fun task htask =>
    h (some task.1, task.2) (List.mem_append_left _ (List.mem_map_of_mem htask))
  refine ⟨contents_congr fun task htask => hout task (List.mem_append_right _ htask), fun j => ?_⟩
  obtain rfl := Subsingleton.elim theWorker j
  refine WorkerPhase.map_congr fun task htask => ?_
  rw [packetOf, packetOf, hout task (List.mem_append_left _ htask)]

theorem blocks_others (tasks : List (κ × Nat)) (others : List Nat) (packet : Nat) :
    blocks tasks (others ++ [packet]) = blocks tasks others ++ [(none, packet)] := by
  rw [blocks, blocks, List.map_append, List.map_singleton, List.append_assoc]

theorem blocks_tasks (tasks : List (κ × Nat)) (others : List Nat) (task : κ × Nat) :
    (blocks tasks others ++ [(some task.1, task.2)]).Perm (blocks (tasks ++ [task]) others) := by
  rw [blocks, blocks, List.map_append, List.map_singleton, List.append_assoc, List.append_assoc]
  exact List.perm_append_comm.append_left _

/-- A worker that goes on to a task or from one. -/
theorem setWorker_out (j : Fin Config.kWorkerThreadCount) (p : WorkerPhase (κ × Nat)) :
    (s.setWorker j p).out = blocks (p.task ++ s.tasks) s.others := by
  obtain rfl := Subsingleton.elim theWorker j
  show blocks ((Function.update s.workers theWorker p theWorker).task ++ s.tasks) s.others = _
  rw [Function.update_self]

theorem setWorker_view (j : Fin Config.kWorkerThreadCount) (p : WorkerPhase (κ × Nat)) :
    (s.setWorker j p).view = s.view.setWorker j (p.map (packetOf s.pool)) := by
  simp only [view, setWorker, Delivery.setWorker, Delivery.mk.injEq, true_and, and_true]
  funext j'
  obtain rfl := Subsingleton.elim j j'
  rw [Function.update_self, Function.update_self]

/-- A packet more, when the others are where they were. -/
theorem view_posted {pool : PacketPool} {packet : Nat} {frame : List Byte}
    (hsame : ∀ task ∈ s.out, pool.obj (slotIndex task.2) = s.pool.obj (slotIndex task.2))
    (hframe : (pool.obj (slotIndex packet)).sent = frame)
    (incarnations : κ → Option Incarnation) :
    ({ s with pool, tasks := s.tasks ++ [(k, packet)], incarnations } : Posted κ ι).view =
      { s.view with tasks := s.view.tasks ++ [(k, frame)], incarnations } := by
  obtain ⟨hcontents, hworkers⟩ := packetOf_eq hsame
  have htasks : contents pool (s.tasks ++ [(k, packet)]) = contents s.pool s.tasks ++ [(k, frame)] := by
    rw [← hcontents, ← hframe, contents, List.map_append]
    rfl
  simp only [view, htasks, hworkers]

/-! ### The steps -/

variable [DecidableEq κ]

theorem start_inv : (start : Posted κ ι).Inv := by
  refine ⟨⟨(blank_room 0).rep, fun _ h => (nomatch h), List.nodup_nil, ?_⟩, Delivery.start_inv⟩
  have hfree : (blank 0).free = Finset.range Config.kMaxPacketCount :=
    Finset.filter_true_of_mem fun _ _ => rfl
  show (blank 0).free.card + 0 = Config.kMaxPacketCount
  rw [hfree, Finset.card_range, Nat.add_zero]

theorem take_inv (h : s.Inv) {b : PacketBlock} {pool : PacketPool} {packet : Nat}
    (ht : takePacket s.pool (fun q slot => fill q slot fun _ => some b) = some (pool, packet)) :
    ({ s with pool, others := s.others ++ [packet] } : Posted κ ι).Inv ∧
      ({ s with pool, others := s.others ++ [packet] } : Posted κ ι).view = s.view := by
  obtain ⟨hq, hsame, -⟩ := h.queued.take ht none
  obtain ⟨hcontents, hworkers⟩ := packetOf_eq hsame
  have hview : ({ s with pool, others := s.others ++ [packet] } : Posted κ ι).view = s.view := by
    simp only [view, hcontents, hworkers]
  refine ⟨⟨?_, hview ▸ h.view⟩, hview⟩
  show Queued pool (blocks ((s.workers theWorker).task ++ s.tasks) (s.others ++ [packet]))
  rw [blocks_others]
  exact hq

theorem give_inv (h : s.Inv) {packet : Nat} (hmem : packet ∈ s.others) {pool : PacketPool}
    (hr : s.pool.releaseRef packet = some pool) :
    ({ s with pool, others := s.others.erase packet } : Posted κ ι).Inv ∧
      ({ s with pool, others := s.others.erase packet } : Posted κ ι).view = s.view := by
  have hperm : s.out.Perm ((none, packet) ::
      ({ s with pool, others := s.others.erase packet } : Posted κ ι).out) := by
    have hothers := (List.perm_cons_erase hmem).map fun packet => ((none : Option κ), packet)
    refine (hothers.append_left _).trans ?_
    exact List.perm_middle
  obtain ⟨hq, hobj⟩ := (h.queued.perm hperm).release hr
  have hsame : ∀ task ∈ s.out, pool.obj (slotIndex task.2) = s.pool.obj (slotIndex task.2) :=
    fun task _ => by rw [hobj]
  obtain ⟨hcontents, hworkers⟩ := packetOf_eq hsame
  have hview : ({ s with pool, others := s.others.erase packet } : Posted κ ι).view = s.view := by
    simp only [view, hcontents, hworkers]
  exact ⟨⟨hq, hview ▸ h.view⟩, hview⟩

/-- A packet that fits is one when it is read out of the ring. -/
theorem frame_fits {bs : List Byte} (hw : WholePacket bs)
    (hsize : headerSize bs ≤ Config.kMaxPacketSize) :
    (kHeaderSize ≤ (bs.take (headerSize bs)).length ∧
      headerSize (bs.take (headerSize bs)) = (bs.take (headerSize bs)).length) ∧
        headerSize (bs.take (headerSize bs)) ≤ Config.kMaxPacketSize := by
  have hrecord := Records.record_take readsHeader hw
  exact ⟨hrecord, hrecord.2.le.trans ((List.length_take_le ..).trans hsize)⟩

variable [DecidableEq ι]

/-- A pass of `OnRecv` is the same pass on the packets. -/
theorem pass_view (h : s.Inv) {i : ι} (hfits : s.Fits (.deliver (.pass i)))
    (hs : s.step (.deliver (.pass i)) = some s') :
    Queued s'.pool s'.out ∧ s.view.step (.pass i) = some s'.view := by
  simp only [step] at hs
  split at hs
  case h_2 => cases hs
  rename_i k hi
  obtain ⟨c, hc, hs⟩ := Option.bind_eq_some_iff.mp hs
  have hk := h.view.receiving.kept k c hc
  rw [Delivery.step_pass (s := s.view) hi hc]
  by_cases hw : WholePacket c.session.recvOv.window
  · obtain ⟨hsize, -⟩ := hfits k c hi hc hw
    obtain ⟨hrecord, hfit⟩ := frame_fits hw hsize
    have hpass := Session.drainBody_whole (post k) hk.spans ((s.pool, s.tasks), c.handed) hw
    have hpassed := Session.drainBody_whole (fun env frame => some (Delivery.post k env frame))
      hk.spans (s.view.tasks, c.handed) hw
    rw [Option.map_some] at hpassed
    generalize c.session.recvOv.window.take (headerSize c.session.recvOv.window) = frame at *
    simp only [post, copyPacket_of_le _ _ hfit] at hpass
    cases htake : takePacket s.pool (fun q slot => fill q slot (·.copy frame)) with
    | none =>
      simp only [htake] at hpass
      rw [passed, hpass] at hs
      cases hs
    | some taken =>
      obtain ⟨pool, packet⟩ := taken
      simp only [htake] at hpass
      rw [passed, hpass] at hs
      cases hs
      obtain ⟨hq, hsame, b, hb⟩ := h.queued.take htake (some k)
      refine ⟨hq.perm ?_, ?_⟩
      · show (s.out ++ [(some k, packet)]).Perm
          (blocks ((s.workers theWorker).task ++ (s.tasks ++ [(k, packet)])) s.others)
        rw [← List.append_assoc]
        exact blocks_tasks _ _ (k, packet)
      · simp only [Delivery.passed, hpassed, Option.bind_eq_bind, Option.bind_some]
        exact congrArg some (view_posted hsame (sent_copy hrecord hb) _).symm
  · have hpass := Session.drainBody_leave (post k) hk.spans ((s.pool, s.tasks), c.handed) hw
    have hpassed := Session.drainBody_leave (fun env frame => some (Delivery.post k env frame))
      hk.spans (s.view.tasks, c.handed) hw
    rw [passed, hpass] at hs
    cases hs
    refine ⟨h.queued, ?_⟩
    simp only [Delivery.passed, hpassed, Option.bind_eq_bind, Option.bind_some]
    rfl

theorem step_pass {i : ι} {c : Incarnation} (hi : s.threads i = .draining k)
    (hc : s.incarnations k = some c) : s.step (.deliver (.pass i)) = s.passed i k c := by
  -- as in `Delivery.step_pass`
  generalize hx : s.passed i k c = x
  rw [step, hi]
  show (s.incarnations k).bind _ = _
  rw [hc, Option.bind_some, hx]

/-- And it is made. -/
theorem pass_served (h : s.Inv) {i : ι} {c : Incarnation} (hi : s.threads i = .draining k)
    (hc : s.incarnations k = some c) (hfits : s.Fits (.deliver (.pass i))) :
    ∃ s', s.step (.deliver (.pass i)) = some s' := by
  have hk := h.view.receiving.kept k c hc
  rw [step_pass hi hc]
  by_cases hw : WholePacket c.session.recvOv.window
  · obtain ⟨hsize, hfree⟩ := hfits k c hi hc hw
    obtain ⟨hrecord, hfit⟩ := frame_fits hw hsize
    have hpass := Session.drainBody_whole (post k) hk.spans ((s.pool, s.tasks), c.handed) hw
    generalize c.session.recvOv.window.take (headerSize c.session.recvOv.window) = frame at *
    obtain ⟨pool, packet, htake⟩ :=
      takePacket_some h.queued.rep hfree fun b => (b.copy_of_le hrecord.2.le hfit).imp fun _ h => h.1
    simp only [post, copyPacket_of_le _ _ hfit, htake, Option.bind_eq_bind, Option.bind_some,
      Option.pure_def, Option.map_some] at hpass
    simp only [passed, hpass, Option.bind_eq_bind, Option.bind_some, Option.pure_def]
    exact ⟨_, rfl⟩
  · have hpass := Session.drainBody_leave (post k) hk.spans ((s.pool, s.tasks), c.handed) hw
    simp only [passed, hpass, Option.bind_eq_bind, Option.bind_some, Option.pure_def]
    exact ⟨_, rfl⟩

/-- `Pop` takes the same task. -/
theorem pop_view {j : Fin Config.kWorkerThreadCount} (hs : s.step (.deliver (.pop j)) = some s') :
    s'.pool = s.pool ∧ s'.out = s.out ∧ s.view.step (.pop j) = some s'.view := by
  obtain rfl := Subsingleton.elim theWorker j
  simp only [step] at hs
  split at hs
  case h_2 => cases hs
  rename_i hj
  have hview : s.view.workers theWorker = .popping := congrArg (WorkerPhase.map _) hj
  have hout : s.out = blocks s.tasks s.others := by
    rw [out, hj]
    rfl
  split at hs
  · rename_i hshut
    cases hs
    refine ⟨rfl, ?_, ?_⟩
    · rw [setWorker_out, hout]
      rfl
    · rw [setWorker_view, Delivery.step, hview]
      exact if_pos hshut
  · rename_i hshut
    cases ht : s.tasks with
    | nil =>
      rw [ht] at hs
      cases hs
    | cons task tasks =>
      rw [ht] at hs
      cases hs
      refine ⟨rfl, ?_, ?_⟩
      · rw [setWorker_out, hout, ht]
        rfl
      · have htasks : s.view.tasks = packetOf s.pool task :: contents s.pool tasks := by
          rw [view, ht]
          rfl
        rw [setWorker_view, Delivery.step, hview]
        simp only [htasks, show s.view.isShuttingDown = s.isShuttingDown from rfl, if_neg hshut]
        rfl

/-- `Execute` is called on the packet of the task. -/
theorem call_view {j : Fin Config.kWorkerThreadCount} (hs : s.step (.deliver (.call j)) = some s') :
    s'.pool = s.pool ∧ s'.out = s.out ∧ s.view.step (.call j) = some s'.view := by
  obtain rfl := Subsingleton.elim theWorker j
  simp only [step] at hs
  split at hs
  case h_2 => cases hs
  rename_i task hj
  have hview : s.view.workers theWorker = .holding (packetOf s.pool task) :=
    congrArg (WorkerPhase.map _) hj
  cases hs
  refine ⟨rfl, ?_, ?_⟩
  · rw [setWorker_out, out, hj]
    rfl
  · rw [setWorker_view, Delivery.step, hview]
    rfl

/-- At the end of the task its block goes back. -/
theorem finish_view (h : s.Inv) {j : Fin Config.kWorkerThreadCount}
    (hs : s.step (.deliver (.finish j)) = some s') :
    Queued s'.pool s'.out ∧ s.view.step (.finish j) = some s'.view := by
  obtain rfl := Subsingleton.elim theWorker j
  simp only [step] at hs
  split at hs
  case h_2 => cases hs
  rename_i task hj
  obtain ⟨pool, hr, hs⟩ := Option.bind_eq_some_iff.mp hs
  cases hs
  have hview : s.view.workers theWorker = .executing (packetOf s.pool task) :=
    congrArg (WorkerPhase.map _) hj
  have hout : s.out = (some task.1, task.2) :: blocks s.tasks s.others := by
    rw [out, hj]
    rfl
  obtain ⟨hq, hobj⟩ := (hout ▸ h.queued : Queued s.pool (_ :: _)).release hr
  have hsame : ∀ task ∈ s.out, pool.obj (slotIndex task.2) = s.pool.obj (slotIndex task.2) :=
    fun task _ => by rw [hobj]
  obtain ⟨hcontents, hworkers⟩ := packetOf_eq hsame
  refine ⟨?_, ?_⟩
  · rw [setWorker_out]
    exact hq
  · have hpool : ({ s with pool } : Posted κ ι).view = s.view := by
      simp only [view, hcontents, hworkers]
    rw [setWorker_view, hpool, Delivery.step, hview]
    rfl

/-- **One step.**  While packets fit in a block and find one, a step is that of `Delivery` on the
packets in the blocks, or is not seen there. -/
theorem view_step {e : Event κ ι} (h : s.Inv) (hl : s.Legit e) (hfits : s.Fits e)
    (hs : s.step e = some s') : s'.Inv ∧ (s'.view = s.view ∨
      ∃ e', s.view.Legit e' ∧ s.view.step e' = some s'.view) := by
  have seen : ∀ {e'}, s.view.Legit e' → Queued s'.pool s'.out → s.view.step e' = some s'.view →
      s'.Inv ∧ (s'.view = s.view ∨ ∃ e', s.view.Legit e' ∧ s.view.step e' = some s'.view) :=
    fun hl hq hstep => ⟨⟨hq, Delivery.step_inv h.view hl hstep⟩, .inr ⟨_, hl, hstep⟩⟩
  cases e with
  | take b =>
    obtain ⟨⟨pool, packet⟩, ht, hs⟩ := Option.bind_eq_some_iff.mp hs
    cases hs
    obtain ⟨hinv, hview⟩ := take_inv h ht
    exact ⟨hinv, .inl hview⟩
  | give packet =>
    simp only [step] at hs
    split at hs
    case isFalse => cases hs
    rename_i hmem
    obtain ⟨pool, hr, hs⟩ := Option.bind_eq_some_iff.mp hs
    cases hs
    obtain ⟨hinv, hview⟩ := give_inv h hmem hr
    exact ⟨hinv, .inl hview⟩
  | deliver e =>
    have hl : s.view.Legit e := hl
    by_cases he : Moves e
    · cases e with
      | pass i =>
        obtain ⟨hq, hstep⟩ := pass_view h hfits hs
        exact seen hl hq hstep
      | pop j =>
        obtain ⟨hpool, hout, hstep⟩ := pop_view hs
        exact seen hl (hpool ▸ hout ▸ h.queued) hstep
      | call j =>
        obtain ⟨hpool, hout, hstep⟩ := call_view hs
        exact seen hl (hpool ▸ hout ▸ h.queued) hstep
      | finish j =>
        obtain ⟨hq, hstep⟩ := finish_view h hs
        exact seen hl hq hstep
      | _ => exact absurd he id
    · obtain ⟨d, hd, hs⟩ : ∃ d, s.view.step e = some d ∧ s' = { s with
          incarnations := d.incarnations, threads := d.threads, isShuttingDown := d.isShuttingDown } := by
        cases e with
        | pass i | pop j | call j | finish j => exact absurd trivial he
        | _ =>
          simp only [step] at hs
          obtain ⟨d, hd, hs⟩ := Option.bind_eq_some_iff.mp hs
          exact ⟨d, hd, (Option.some.inj hs).symm⟩
      obtain ⟨htasks, hworkers, hexecuted⟩ := step_rest he hd
      have hview : s'.view = d := by
        obtain ⟨incarnations, threads, tasks, isShuttingDown, workers, executed⟩ := d
        obtain rfl : tasks = s.view.tasks := htasks
        obtain rfl : workers = s.view.workers := hworkers
        obtain rfl : executed = s.view.executed := hexecuted
        rw [hs]
        rfl
      subst hs
      exact seen hl h.queued (hview ▸ hd)

/-! ### Runs -/

variable {es : List (Event κ ι)} {c : Incarnation}

theorem run_view (r : Runs step (fun s e => Legit s e ∧ Fits s e) start es s) :
    s.Inv ∧ ∃ es', Runs Delivery.step Delivery.Legit Delivery.start es' s.view :=
  r.simulates view start_inv fun _ _ _ h hok hs => view_step h hok.1 hok.2 hs

/-- **Per-session packet order** as long as packets fit in a block and find one.  What `Execute` has
been called on of one incarnation is a prefix of the packets of its byte stream, whatever bytes are
still to come; what has been posted is what has been executed, what the worker has just popped, and
what is queued, in this order; and the next pass of `OnRecv` is made. -/
theorem posted_in_order (r : Runs step (fun s e => Legit s e ∧ Fits s e) start es s)
    (hc : s.incarnations k = some c) :
    (∀ rest, lane k s.executed <+: (Records.parse kHeaderSize headerSize (c.stream ++ rest)).1) ∧
      (∀ j, lane k s.executed ++ (lane k (contents s.pool (s.workers j).held) ++
        lane k (contents s.pool s.tasks)) = c.handed) ∧
      ∀ i, s.threads i = .draining k → s.Fits (.deliver (.pass i)) →
        ∃ s', s.step (.deliver (.pass i)) = some s' := by
  obtain ⟨hinv, es', r'⟩ := run_view r
  obtain ⟨horder, hposted⟩ := Delivery.executed_in_order r' hc
  refine ⟨horder, fun j => ?_, fun i hi hfits => ?_⟩
  · have hheld : (s.view.workers j).held = contents s.pool (s.workers j).held :=
      WorkerPhase.map_held _ _
    rw [← hheld]
    exact hposted j
  · exact pass_served hinv hi hc hfits

/-- For a trace: the second slot is free, and the packet to be posted fits in a block. -/
def roomy (s : Posted Unit Unit) : Event Unit Unit → Bool
  | .deliver (.pass _) => decide ((s.pool.set.cells 1).state = 0) &&
      (s.incarnations ()).all fun c =>
        decide (headerSize c.session.recvOv.window ≤ Config.kMaxPacketSize)
  | _ => true

theorem roomy_fits {s : Posted Unit Unit} {e : Event Unit Unit} (h : roomy s e = true) : s.Fits e := by
  cases e with
  | deliver e =>
    cases e with
    | pass i =>
      rintro ⟨⟩ c - hc -
      obtain ⟨hstate, hsize⟩ := Bool.and_eq_true_iff.mp h
      rw [hc] at hsize
      refine ⟨of_decide_eq_true hsize, Finset.card_pos.mpr ⟨1, ?_⟩⟩
      exact SparsePool.mem_free.mpr ⟨by decide, of_decide_eq_true hstate⟩
    | _ => trivial
  | take _ | give _ => trivial

/-- A packet is executed and another waits, while `Execute` has a block for its copy. -/
theorem posted_in_order_two : ∃ (s : Posted Unit Unit) (es : _) (c : _),
    Runs step (fun s e => Legit s e ∧ Fits s e) start es s ∧ s.incarnations () = some c ∧
      lane () s.executed = [[4, 0, 5, 0]] ∧
      lane () s.executed <+: (Records.parse kHeaderSize headerSize (c.stream ++ [5, 0])).1 := by
  have trace : ((execIf (fun s e => decide (Legit s e) && roomy s e) step (start : Posted Unit Unit)
      [.deliver (.connect () .fresh none true), .deliver (.arrive () () 0 [4, 0, 5, 0, 4, 0, 3, 0, 4]),
        .deliver (.pass ()), .deliver (.pass ()), .deliver (.pop theWorker),
        .deliver (.call theWorker), .take (.filled 7)]).bind fun s =>
          (s.incarnations ()).map fun _ => lane () s.executed) = some [[4, 0, 5, 0]] := by
    decide +kernel
  obtain ⟨s, hs, hlane⟩ := Option.bind_eq_some_iff.mp trace
  obtain ⟨c, hc, hlane⟩ := Option.map_eq_some_iff.mp hlane
  have allowed : ∀ (s : Posted Unit Unit) e, True → (decide (Legit s e) && roomy s e) = true →
      Legit s e ∧ Fits s e := by
    intro s e _ h
    obtain ⟨hl, hroomy⟩ := Bool.and_eq_true_iff.mp h
    exact ⟨of_decide_eq_true hl, roomy_fits hroomy⟩
  have r : Runs step (fun s e => Legit s e ∧ Fits s e) start _ s :=
    .of_execIf allowed (fun _ _ _ _ _ _ => trivial) trivial hs
  exact ⟨s, _, c, r, hc, hlane, (posted_in_order r hc).1 [5, 0]⟩

/-- A packet of 1044 bytes, the last twelve of which go to the `refCount_` and the block of the next
slot. -/
def longPacket : List Byte :=
  [20, 4, 5, 0] ++ List.replicate 1028 0 ++ leBytes 8 1 ++ [4, 0, 9, 0]

/-- **A packet that waits is overwritten** by one that does not fit in its block, and `Execute` is
called on four bytes that are no packet of the stream. -/
theorem overwritten : ∃ (s : Posted Unit Unit) (es : _) (c : _),
    Runs step Legit start es s ∧ s.incarnations () = some c ∧
      c.stream = [4, 0, 5, 0] ++ [4, 0, 5, 0] ++ longPacket ∧
      lane () s.executed = [[4, 0, 5, 0], [4, 0, 9, 0]] ∧
      ¬ lane () s.executed <+: (Records.parse kHeaderSize headerSize c.stream).1 := by
  have trace : ((execIf (fun s e => decide (Legit s e)) step (start : Posted Unit Unit)
      [.deliver (.connect () .fresh none true),
        .deliver (.arrive () () 0 ([4, 0, 5, 0] ++ [4, 0, 5, 0] ++ longPacket)),
        .deliver (.pass ()), .deliver (.pass ()), .deliver (.pass ()), .deliver (.pop theWorker),
        .deliver (.call theWorker), .deliver (.finish theWorker), .deliver (.pop theWorker),
        .deliver (.call theWorker)]).bind fun s =>
          (s.incarnations ()).map fun c => (lane () s.executed, c.stream)) =
      some ([[4, 0, 5, 0], [4, 0, 9, 0]], [4, 0, 5, 0] ++ [4, 0, 5, 0] ++ longPacket) := by
    decide +kernel
  obtain ⟨s, hs, hout⟩ := Option.bind_eq_some_iff.mp trace
  obtain ⟨c, hc, hout⟩ := Option.map_eq_some_iff.mp hout
  obtain ⟨hlane, hstream⟩ := Prod.mk.inj hout
  have r : Runs step Legit start _ s :=
    .of_execIf (I := fun _ => True) (fun _ _ _ h => of_decide_eq_true h) (fun _ _ _ _ _ _ => trivial)
      trivial hs
  refine ⟨s, _, c, r, hc, hstream, hlane, ?_⟩
  rw [hlane, hstream]
  decide +kernel

end Posted

end IocpServer
