import IocpServer.Packet.Handler
import IocpServer.Session.Receive
import IocpServer.Support.Lanes

/-!
# Server — Delivery

The way of the packets from the receives of all sessions through the task queue to `Execute`:
`OnRecv` of `Server/Session.cpp` on any number of IOCP threads, `Server/TaskQueue.hpp`, and the
workers of `Server/PacketHandler.cpp`.

A session is taken incarnation by incarnation: a slot is not given to the next connection while a
receive on it is outstanding or being handled (`Engine.inFlight_pinned`).  An IOCP thread makes one
pass through the loop of `OnRecv` at a time, in which `PostTask` is the one thing other threads see.
A packet is handed on by itself: `AcquirePacket` is taken to find a block, and the packet to fit in it.
`Server/Posted.lean` has the packets in their blocks, and says what becomes of one that is longer.

* `step_inv`: the invariant of one step.
* `executed_in_order`: in every run what is executed of one incarnation is a prefix of the packets
  of its byte stream, and nothing handed over is lost.
-/

namespace IocpServer

/-- One connection on a slot: its session, the state the pool has it in, the `WSARecv`s outstanding,
the bytes received, and the packets posted as tasks. -/
structure Incarnation where
  session : Session
  state : SessionState
  posted : List WsaBuf
  stream : List Byte
  handed : List (List Byte)

/-- What an IOCP thread is doing: it waits for a completion; it is in the loop of `OnRecv`, or has
left that by `break`; or `HandleIO` has failed and it is going to disconnect the session. -/
inductive RecvPhase (κ : Type) where
  | idle
  | draining (k : κ)
  | drained (k : κ)
  | refused (k : κ)
  deriving DecidableEq

/-- What a packet worker is doing: it is in `Pop`; it has a task; it is in the task's `Execute`; or
`Pop` has returned `nullptr`. -/
inductive WorkerPhase (τ : Type) where
  | popping
  | holding (task : τ)
  | executing (task : τ)
  | ended
  deriving DecidableEq

/-- The task a worker has popped and not begun. -/
def WorkerPhase.held {τ : Type} : WorkerPhase τ → List τ
  | .holding task => [task]
  | _ => []

/-- The server.  `executed` is the packets `Execute` has been called on, with their incarnations. -/
structure Delivery (κ ι : Type) where
  incarnations : κ → Option Incarnation
  threads : ι → RecvPhase κ
  tasks : List (κ × List Byte)
  isShuttingDown : Bool
  workers : Fin Config.kWorkerThreadCount → WorkerPhase (κ × List Byte)
  executed : List (κ × List Byte)

namespace Delivery

variable {κ ι : Type}

/-- Nothing connected and nothing queued. -/
def start : Delivery κ ι := ⟨fun _ => none, fun _ => .idle, [], false, fun _ => .popping, []⟩

/-- A step.  `i` is an IOCP thread, `j` a packet worker, `k` an incarnation. -/
inductive Event (κ ι : Type) where
  /-- `Connect` on a slot that held `slot` before, up to its `WSARecv`. -/
  | connect (k : κ) (slot : Session) (ptr : Option Nat) (queued : Bool)
  /-- The completion of the `n`-th outstanding `WSARecv`, with `data` stored, is dequeued. -/
  | arrive (i : ι) (k : κ) (n : Nat) (data : List Byte)
  /-- The same when it has failed or transferred nothing. -/
  | fail (i : ι) (k : κ) (n : Nat)
  /-- One pass through the loop of `OnRecv`. -/
  | pass (i : ι)
  /-- The rest of `OnRecv`. -/
  | repost (i : ι) (ptr : Option Nat) (queued : Bool)
  /-- `Disconnect`, after a failure. -/
  | disconnect (i : ι)
  /-- `Disconnect`, called from elsewhere. -/
  | close (k : κ)
  /-- `Pop`. -/
  | pop (j : Fin Config.kWorkerThreadCount)
  /-- The call of the task, which calls `Execute`. -/
  | call (j : Fin Config.kWorkerThreadCount)
  /-- The end of that call. -/
  | finish (j : Fin Config.kWorkerThreadCount)
  /-- `Shutdown`. -/
  | shutdown

/-- What `OnRecv` of the incarnation `k` does with a packet: its task joins the queue. -/
def post (k : κ) : List (κ × List Byte) × List (List Byte) → List Byte →
    List (κ × List Byte) × List (List Byte)
  | (tasks, handed), frame => (tasks ++ [(k, frame)], handed ++ [frame])

/-- `Session::Disconnect`, up to its `DisconnectEx`. -/
def disconnected (c : Incarnation) : Incarnation :=
  { c with state := match c.state with
    | .kPending | .kConnected => .kDisconnecting
    | state => state }

/-- After `RegisterRecv` came to `r`: a `WSARecv` that failed is not outstanding. -/
def registered (c : Incarnation) (r : Registered) : Incarnation :=
  { c with session := r.session, posted := c.posted ++ if r.ok then r.io.toList else [] }

section Step

variable [DecidableEq κ] [DecidableEq ι]

def setIncarnation (s : Delivery κ ι) (k : κ) (c : Incarnation) : Delivery κ ι :=
  { s with incarnations := Function.update s.incarnations k (some c) }

def setThread (s : Delivery κ ι) (i : ι) (p : RecvPhase κ) : Delivery κ ι :=
  { s with threads := Function.update s.threads i p }

def setWorker (s : Delivery κ ι) (j : Fin Config.kWorkerThreadCount)
    (p : WorkerPhase (κ × List Byte)) : Delivery κ ι :=
  { s with workers := Function.update s.workers j p }

/-- The bytes of a completion are where the `WSARecv` pointed, and `OnRecv` has counted them. -/
def arrived (c : Incarnation) (n : Nat) (data : List Byte) : Option Incarnation := do
  let w ← c.posted[n]?
  let buffer ← c.session.recvOv.buffer.write w.buf data
  let ov := { c.session.recvOv with
    buffer, sendPos := u64 (c.session.recvOv.sendPos + data.length) }
  return { c with
    session := { c.session with recvOv := ov }
    posted := c.posted.eraseIdx n
    stream := c.stream ++ data }

/-- The pass of thread `i`. -/
def passed (s : Delivery κ ι) (i : ι) (k : κ) (c : Incarnation) : Option (Delivery κ ι) := do
  let pass ← Session.drainBody (fun env frame => some (post k env frame))
    (c.session.recvOv, s.tasks, c.handed)
  match pass with
  | .again (ov, tasks, handed) =>
    return { s with tasks }.setIncarnation k
      { c with session := { c.session with recvOv := ov }, handed }
  | .leave (_, _, ok) => return s.setThread i (if ok then .drained k else .refused k)

def step (s : Delivery κ ι) : Event κ ι → Option (Delivery κ ι)
  | .connect k slot ptr queued =>
    match s.incarnations k with
    | some _ => none
    | none =>
      let session := slot.init
      some (s.setIncarnation k
        (registered ⟨session, .kConnected, [], [], []⟩ (session.registerRecv ptr queued)))
  | .arrive i k n data => do
    let c ← s.incarnations k
    if s.threads i = .idle then
      let c ← arrived c n data
      return (s.setIncarnation k c).setThread i (.draining k)
    else none
  | .fail i k n => do
    let c ← s.incarnations k
    if s.threads i = .idle ∧ n < c.posted.length then
      return (s.setIncarnation k { c with posted := c.posted.eraseIdx n }).setThread i (.refused k)
    else none
  | .pass i =>
    match s.threads i with
    | .draining k => do
      let c ← s.incarnations k
      s.passed i k c
    | _ => none
  | .repost i ptr queued =>
    match s.threads i with
    | .drained k => do
      let c ← s.incarnations k
      let r := { c.session with recvOv := c.session.recvOv.wrap }.registerRecv ptr queued
      return (s.setIncarnation k (registered c r)).setThread i
        (if r.ok then .idle else .refused k)
    | _ => none
  | .disconnect i =>
    match s.threads i with
    | .refused k => do
      let c ← s.incarnations k
      return (s.setIncarnation k (disconnected c)).setThread i .idle
    | _ => none
  | .close k => do
    let c ← s.incarnations k
    return s.setIncarnation k (disconnected c)
  | .pop j =>
    match s.workers j with
    | .popping =>
      if s.isShuttingDown then some (s.setWorker j .ended)
      else match s.tasks with
        | [] => none
        | task :: tasks => some ({ s with tasks }.setWorker j (.holding task))
    | _ => none
  | .call j =>
    match s.workers j with
    | .holding task =>
      some ({ s with executed := s.executed ++ [task] }.setWorker j (.executing task))
    | _ => none
  | .finish j =>
    match s.workers j with
    | .executing _ => some (s.setWorker j .popping)
    | _ => none
  | .shutdown => some { s with isShuttingDown := true }

/-- The steps in which packets are posted, taken and executed. -/
def Moves : Event κ ι → Prop
  | .pass _ | .pop _ | .call _ | .finish _ => True
  | .connect .. | .arrive .. | .fail .. | .repost .. | .disconnect _ | .close _ | .shutdown => False

/-- The others leave the packets alone. -/
theorem step_rest {s s' : Delivery κ ι} {e : Event κ ι} (he : ¬ Moves e) (hs : s.step e = some s') :
    s'.tasks = s.tasks ∧ s'.workers = s.workers ∧ s'.executed = s.executed := by
  cases e with
  | connect k slot ptr queued =>
    simp only [step] at hs
    split at hs <;> cases hs
    exact ⟨rfl, rfl, rfl⟩
  | arrive i k n data =>
    obtain ⟨c, -, hs⟩ := Option.bind_eq_some_iff.mp hs
    split at hs
    · obtain ⟨c', -, hs⟩ := Option.bind_eq_some_iff.mp hs
      cases hs
      exact ⟨rfl, rfl, rfl⟩
    · cases hs
  | fail i k n =>
    obtain ⟨c, -, hs⟩ := Option.bind_eq_some_iff.mp hs
    split at hs <;> cases hs
    exact ⟨rfl, rfl, rfl⟩
  | repost i ptr queued =>
    simp only [step] at hs
    split at hs
    case h_2 => cases hs
    obtain ⟨c, -, hs⟩ := Option.bind_eq_some_iff.mp hs
    rw [Option.pure_def, Option.some.injEq] at hs
    rw [← hs]
    exact ⟨rfl, rfl, rfl⟩
  | disconnect i =>
    simp only [step] at hs
    split at hs
    case h_2 => cases hs
    obtain ⟨c, -, hs⟩ := Option.bind_eq_some_iff.mp hs
    cases hs
    exact ⟨rfl, rfl, rfl⟩
  | close k =>
    obtain ⟨c, -, hs⟩ := Option.bind_eq_some_iff.mp hs
    cases hs
    exact ⟨rfl, rfl, rfl⟩
  | shutdown =>
    cases hs
    exact ⟨rfl, rfl, rfl⟩
  | pass _ | pop _ | call _ | finish _ => exact absurd trivial he

/-- What Winsock and the pool promise: a slot has a ring of `kBufferSize` bytes, and a completion
that transferred something brings no more than its `WSARecv` had room for. -/
def Legit (s : Delivery κ ι) : Event κ ι → Prop
  | .connect _ slot _ _ => slot.recvOv.buffer.size = Config.kBufferSize
  | .arrive _ k n data => ∀ w ∈ (s.incarnations k).bind fun c => c.posted[n]?,
      1 ≤ data.length ∧ data.length ≤ w.len
  | _ => True

instance (s : Delivery κ ι) : DecidablePred s.Legit
  | .connect .. => inferInstanceAs (Decidable (_ = _))
  | .arrive .. => inferInstanceAs (Decidable (∀ w ∈ Option.bind _ _, _ ∧ _))
  | .fail .. | .pass _ | .repost .. | .disconnect _ | .close _ | .pop _ | .call _ | .finish _
  | .shutdown => inferInstanceAs (Decidable True)

end Step

/-! ### The receive side of one incarnation -/

variable {threads : ι → RecvPhase κ} {k : κ} {c : Incarnation}

/-- The incarnation whose receive the thread handles. -/
def key : RecvPhase κ → Option κ
  | .idle => none
  | .draining k | .drained k | .refused k => some k

/-- The thread is inside `OnRecv` of `k`. -/
def Inside (k : κ) (p : RecvPhase κ) : Prop := p = .draining k ∨ p = .drained k

theorem Inside.key {p : RecvPhase κ} (h : Inside k p) : key p = some k := by
  rcases h with rfl | rfl <;> rfl

theorem thread_update [DecidableEq ι] {p q : RecvPhase κ} {i j : ι}
    (h : Function.update threads i p j = q) (hp : p ≠ q) : threads j = q := by
  by_cases hj : j = i
  · subst hj
    rw [Function.update_self] at h
    exact absurd h hp
  · rwa [Function.update_of_ne hj] at h

theorem inside_update [DecidableEq ι] {p : RecvPhase κ} {i j : ι}
    (h : Inside k (Function.update threads i p j)) (hp : ¬ Inside k p) : Inside k (threads j) := by
  by_cases hj : j = i
  · subst hj
    rw [Function.update_self] at h
    exact absurd h hp
  · rwa [Function.update_of_ne hj] at h

theorem not_inside {p : RecvPhase κ} (h : p = .idle ∨ p = .refused k) : ¬ Inside k p := by
  rcases h with rfl | rfl <;> rintro (h | h) <;> cases h

/-- The buffer of an outstanding `WSARecv` is the free part of the ring, and the window has no whole
packet and no bad header. -/
structure Ready (ov : OverlappedEx) (w : WsaBuf) : Prop where
  settled : ov.Settled
  buf : w.buf = ov.sendPos
  len : w.len + ov.window.length = ov.buffer.size
  maximal : ¬ WholePacket ov.window
  good : ¬ BadHeader ov.window

/-- The receive side of the incarnation `k`, with the threads that work for it. -/
structure Kept (threads : ι → RecvPhase κ) (k : κ) (c : Incarnation) : Prop where
  spans : c.session.recvOv.Spans
  stream : c.stream = c.handed.flatten ++ c.session.recvOv.window
  records : ∀ f ∈ c.handed, kHeaderSize ≤ f.length ∧ headerSize f = f.length
  state : c.state = .kConnected ∨ c.state = .kDisconnecting
  posted : c.posted = [] ∨
    ∃ w, c.posted = [w] ∧ Ready c.session.recvOv w ∧ ∀ i, ¬ Inside k (threads i)
  alone : ∀ i j, Inside k (threads i) → Inside k (threads j) → i = j
  maximal : (∀ i, threads i ≠ .draining k) → ¬ WholePacket c.session.recvOv.window
  drained : ∀ i, threads i = .drained k → ¬ BadHeader c.session.recvOv.window
  bad : BadHeader c.session.recvOv.window →
    (∃ i, threads i = .draining k ∨ threads i = .refused k) ∨ c.state = .kDisconnecting

/-- What other threads do for other incarnations does not matter. -/
theorem Kept.frame {threads' : ι → RecvPhase κ} (h : Kept threads k c)
    (hf : ∀ i, key (threads i) = some k ∨ key (threads' i) = some k → threads' i = threads i) :
    Kept threads' k c := by
  have eq : ∀ {p : RecvPhase κ}, key p = some k → ∀ i, threads' i = p ↔ threads i = p := by
    intro p hp i
    constructor
    · rintro rfl
      exact (hf i (.inr hp)).symm
    · rintro rfl
      exact hf i (.inl hp)
  have hd : ∀ i, threads' i = .draining k ↔ threads i = .draining k := eq rfl
  have hd' : ∀ i, threads' i = .drained k ↔ threads i = .drained k := eq rfl
  have hr : ∀ i, threads' i = .refused k ↔ threads i = .refused k := eq rfl
  have hin : ∀ i, Inside k (threads' i) ↔ Inside k (threads i) := fun i => or_congr (hd i) (hd' i)
  refine ⟨h.spans, h.stream, h.records, h.state, ?_, ?_, ?_, ?_, ?_⟩
  · simpa only [hin] using h.posted
  · simpa only [hin] using h.alone
  · simpa only [ne_eq, hd] using h.maximal
  · simpa only [hd'] using h.drained
  · simpa only [hd, hr] using h.bad

theorem disconnected_state (h : c.state = .kConnected ∨ c.state = .kDisconnecting) :
    (disconnected c).state = .kDisconnecting := by
  rcases h with hs | hs <;> simp only [disconnected, hs]

/-- `Disconnect` changes the state only. -/
theorem Kept.disconnected (h : Kept threads k c) : Kept threads k (disconnected c) where
  spans := h.spans
  stream := h.stream
  records := h.records
  state := .inr (disconnected_state h.state)
  posted := h.posted
  alone := h.alone
  maximal := h.maximal
  drained := h.drained
  bad _ := .inr (disconnected_state h.state)

/-- `RegisterRecv` with a window that has no whole packet and no bad header. -/
theorem registerRecv_ready {s : Session} (h : s.recvOv.Settled)
    (hw : ¬ WholePacket s.recvOv.window) (hb : ¬ BadHeader s.recvOv.window) (ptr : Option Nat)
    (queued : Bool) :
    ∃ w, (s.registerRecv ptr queued).io = some w ∧
      Ready (s.registerRecv ptr queued).session.recvOv w ∧
      (s.registerRecv ptr queued).session.recvOv.window = s.recvOv.window := by
  obtain ⟨w, hio, -, hov, hbuf, hlen⟩ :=
    Session.registerRecv_spec h ptr queued (Session.room_of_partial h.spans hw hb)
  refine ⟨w, hio, ?_, ?_⟩
  · rw [hov]
    exact ⟨⟨h.size, h.low, h.le, h.fits⟩, hbuf, hlen, hw, hb⟩
  · rw [hov]
    rfl

/-- After a `RegisterRecv` outside the loop of `OnRecv`, when no receive was outstanding. -/
theorem Kept.register {r : Registered} {w : WsaBuf} (hready : Ready r.session.recvOv w)
    (hio : r.io = some w) (hstream : c.stream = c.handed.flatten ++ r.session.recvOv.window)
    (hrec : ∀ f ∈ c.handed, kHeaderSize ≤ f.length ∧ headerSize f = f.length)
    (hstate : c.state = .kConnected ∨ c.state = .kDisconnecting) (hposted : c.posted = [])
    (hthreads : ∀ i, ¬ Inside k (threads i)) : Kept threads k (registered c r) where
  spans := hready.settled.spans
  stream := hstream
  records := hrec
  state := hstate
  posted := by
    cases hok : r.ok with
    | false =>
      left
      simp only [registered, hposted, hok, Bool.false_eq_true, if_false, List.append_nil]
    | true =>
      right
      refine ⟨w, ?_, hready, hthreads⟩
      simp only [registered, hposted, hok, if_true, hio, Option.toList_some, List.nil_append]
  alone i j hi := absurd hi (hthreads i)
  maximal _ := hready.maximal
  drained i hi := absurd (.inr hi) (hthreads i)
  bad hbad := absurd hbad hready.good

/-- The completion found what was posted. -/
theorem Kept.posted_at (h : Kept threads k c) {n : Nat} {w : WsaBuf} (hn : c.posted[n]? = some w) :
    c.posted = [w] ∧ c.posted.eraseIdx n = [] ∧ Ready c.session.recvOv w ∧
      ∀ i, ¬ Inside k (threads i) := by
  rcases h.posted with hp | ⟨w', hp, hready, hthreads⟩
  · rw [hp] at hn
    cases hn
  · rw [hp] at hn
    cases n with
    | zero =>
      obtain rfl : w' = w := Option.some.inj hn
      exact ⟨hp, by rw [hp]; rfl, hready, hthreads⟩
    | succ n => cases hn

/-- Inside `OnRecv` nothing is outstanding. -/
theorem Kept.posted_nil {i : ι} (h : Kept threads k c) (hi : Inside k (threads i)) : c.posted = [] := by
  rcases h.posted with hp | ⟨w, -, -, hout⟩
  · exact hp
  · exact absurd hi (hout i)

/-- A receive completion that transferred something. -/
theorem Kept.arrived (h : Kept threads k c) {n : Nat} {data : List Byte} {w : WsaBuf}
    (hn : c.posted[n]? = some w) (hlen : data.length ≤ w.len) :
    ∃ ov, arrived c n data = some ⟨{ c.session with recvOv := ov }, c.state, [], c.stream ++ data,
        c.handed⟩ ∧
      ov.Spans ∧ ov.window = c.session.recvOv.window ++ data := by
  obtain ⟨hp, herase, hready, -⟩ := h.posted_at hn
  have hfree : c.session.recvOv.window.length + data.length ≤ c.session.recvOv.buffer.size := by
    have := hready.len
    omega
  obtain ⟨buffer, hwrite, hset, hwin⟩ := hready.settled.extend hfree
  refine ⟨_, ?_, hset.spans, hwin⟩
  simp only [Delivery.arrived, hn, hready.buf, hwrite, herase, Option.bind_eq_bind,
    Option.bind_some]
  rfl

/-- What has been posted is a prefix of the packets of the stream, however it goes on. -/
theorem Kept.handed_prefix (h : Kept threads k c) (rest : List Byte) :
    c.handed <+: (Records.parse kHeaderSize headerSize (c.stream ++ rest)).1 := by
  have hrest := (Records.parse_spec readsHeader (by decide) (c.session.recvOv.window ++ rest)).after
    h.records
  rw [← List.append_assoc, ← h.stream] at hrest
  rw [← hrest.eq_parse readsHeader (by decide)]
  exact List.prefix_append ..

/-! ### All incarnations -/

/-- The receive sides of all incarnations; a thread works for one that has begun. -/
structure Receiving (incarnations : κ → Option Incarnation) (threads : ι → RecvPhase κ) : Prop where
  kept : ∀ k c, incarnations k = some c → Kept threads k c
  born : ∀ i k, key (threads i) = some k → ∃ c, incarnations k = some c

section Receiving

variable [DecidableEq κ] {incarnations : κ → Option Incarnation}

/-- A step for `k` that no IOCP thread sees. -/
theorem Receiving.set (h : Receiving incarnations threads) (new : Kept threads k c) :
    Receiving (Function.update incarnations k (some c)) threads where
  kept k' c' hc := by
    by_cases hk : k' = k
    · subst hk
      rw [Function.update_self, Option.some.injEq] at hc
      exact hc ▸ new
    · rw [Function.update_of_ne hk] at hc
      exact h.kept k' c' hc
  born i k' hi := by
    by_cases hk : k' = k
    · subst hk
      exact ⟨c, Function.update_self ..⟩
    · rw [Function.update_of_ne hk]
      exact h.born i k' hi

/-- A step of a thread that works for `k` before or after. -/
theorem Receiving.turn [DecidableEq ι] (h : Receiving incarnations threads) {i : ι} {p : RecvPhase κ}
    (hi : ∀ k', key (threads i) = some k' → k' = k) (hp : ∀ k', key p = some k' → k' = k)
    (new : Kept (Function.update threads i p) k c) :
    Receiving (Function.update incarnations k (some c)) (Function.update threads i p) where
  kept k' c' hc := by
    by_cases hk : k' = k
    · subst hk
      rw [Function.update_self, Option.some.injEq] at hc
      exact hc ▸ new
    · rw [Function.update_of_ne hk] at hc
      refine (h.kept k' c' hc).frame fun j hj => ?_
      by_cases hji : j = i
      · subst hji
        rw [Function.update_self] at hj
        exact absurd (hj.elim (hi k') (hp k')) hk
      · exact Function.update_of_ne hji ..
  born j k' hj := by
    by_cases hk : k' = k
    · subst hk
      exact ⟨c, Function.update_self ..⟩
    · rw [Function.update_of_ne hk]
      by_cases hji : j = i
      · subst hji
        rw [Function.update_self] at hj
        exact absurd (hp k' hj) hk
      · rw [Function.update_of_ne hji] at hj
        exact h.born j k' hj

end Receiving

/-- The packets posted for the incarnation `k`. -/
def handed (s : Delivery κ ι) (k : κ) : List (List Byte) :=
  match s.incarnations k with
  | some c => c.handed
  | none => []

theorem handed_of {s : Delivery κ ι} (h : s.incarnations k = some c) : s.handed k = c.handed := by
  simp only [handed, h]

variable [DecidableEq κ] [DecidableEq ι]

/-- What is posted has been executed, is held by the worker or is queued, in this order. -/
def Queued (s : Delivery κ ι) : Prop :=
  ∀ k j, lane k s.executed ++ (lane k (s.workers j).held ++ lane k s.tasks) = s.handed k

structure Inv (s : Delivery κ ι) : Prop where
  receiving : Receiving s.incarnations s.threads
  queued : s.Queued

omit [DecidableEq ι] in
theorem start_inv : (start : Delivery κ ι).Inv where
  receiving := ⟨fun _ _ h => (nomatch h), fun _ _ h => (nomatch h)⟩
  queued _ _ := rfl

/-- Every worker is the one worker. -/
instance : Subsingleton (Fin Config.kWorkerThreadCount) := inferInstanceAs (Subsingleton (Fin 1))

def theWorker : Fin Config.kWorkerThreadCount := ⟨0, by decide⟩

variable {s s' : Delivery κ ι} {i : ι}

omit [DecidableEq ι] in
/-- What has been executed has been posted before the rest. -/
theorem Inv.executed_prefix (h : s.Inv) (hc : s.incarnations k = some c) :
    lane k s.executed <+: c.handed := by
  rw [← handed_of hc, ← h.queued k theWorker]
  exact List.prefix_append ..

omit [DecidableEq ι] in
/-- A step that leaves the packets posted, queued and executed alone. -/
theorem Queued.of_eq (h : s.Queued) (he : s'.executed = s.executed) (hw : s'.workers = s.workers)
    (ht : s'.tasks = s.tasks) (hh : ∀ k, s'.handed k = s.handed k) : s'.Queued := by
  intro k j
  rw [he, hw, ht, hh]
  exact h k j

omit [DecidableEq ι] in
/-- Nothing is posted by a change of `k` that keeps its packets. -/
theorem handed_set (hc : s.incarnations k = some c) {c' : Incarnation} (hh : c'.handed = c.handed)
    (k' : κ) : (s.setIncarnation k c').handed k' = s.handed k' := by
  by_cases hk : k' = k
  · subst hk
    rw [handed_of hc, ← hh]
    exact handed_of (Function.update_self ..)
  · simp only [handed, setIncarnation, Function.update_of_ne hk]

omit [DecidableEq ι] in
/-- One more packet of `k`. -/
theorem Queued.post (h : s.Queued) (hc : s.incarnations k = some c) {c' : Incarnation}
    {frame : List Byte} (hh : c'.handed = c.handed ++ [frame]) :
    ({ s with tasks := s.tasks ++ [(k, frame)] }.setIncarnation k c').Queued := by
  intro k' j
  have hq := h k' j
  show lane k' s.executed ++ (lane k' (s.workers j).held ++ lane k' (s.tasks ++ [(k, frame)])) = _
  rw [lane_append, ← List.append_assoc, ← List.append_assoc]
  rw [← List.append_assoc] at hq
  by_cases hk : k' = k
  · subst hk
    rw [hq, handed_of hc, handed_of (Function.update_self ..), lane_cons_self, lane_nil, hh]
  · rw [lane_cons_other (Ne.symm hk), lane_nil, List.append_nil, hq]
    simp only [handed, setIncarnation, Function.update_of_ne hk]

/-! ### The steps -/

theorem connect_inv (h : s.Inv) {slot : Session} {ptr : Option Nat} {queued : Bool}
    (hsize : slot.recvOv.buffer.size = Config.kBufferSize)
    (hs : s.step (.connect k slot ptr queued) = some s') : s'.Inv := by
  cases hc : s.incarnations k with
  | some c =>
    simp only [step, hc] at hs
    cases hs
  | none =>
    have hempty : slot.init.recvOv.Empty := OverlappedEx.reset_empty hsize
    have hnil := hempty.window
    have hshort : ¬ kHeaderSize ≤ ([] : List Byte).length := by decide
    have hw : ¬ WholePacket slot.init.recvOv.window := by
      rw [hnil]
      exact fun hw => hshort hw.1
    have hb : ¬ BadHeader slot.init.recvOv.window := by
      rw [hnil]
      exact fun hb => hshort hb.1
    obtain ⟨w, hio, hready, hwin⟩ := registerRecv_ready hempty.settled hw hb ptr queued
    simp only [step, hc, Option.some.injEq] at hs
    subst hs
    refine ⟨h.receiving.set (Kept.register hready hio ?_ (fun f hf => (nomatch hf)) (.inl rfl) rfl ?_),
      h.queued.of_eq rfl rfl rfl fun k' => ?_⟩
    · rw [hwin, hnil]
      rfl
    · -- no thread works for an incarnation that has not begun
      intro i hi
      obtain ⟨c, hc'⟩ := h.receiving.born i k hi.key
      rw [hc] at hc'
      cases hc'
    · by_cases hk : k' = k
      · subst hk
        rw [handed_of (Function.update_self ..), handed, hc]
        rfl
      · simp only [handed, setIncarnation, Function.update_of_ne hk]

theorem arrive_inv (h : s.Inv) {n : Nat} {data : List Byte}
    (hl : ∀ w ∈ (s.incarnations k).bind fun c => c.posted[n]?,
      1 ≤ data.length ∧ data.length ≤ w.len)
    (hs : s.step (.arrive i k n data) = some s') : s'.Inv := by
  obtain ⟨c, hc, hs⟩ := Option.bind_eq_some_iff.mp hs
  by_cases hi : s.threads i = .idle
  · rw [if_pos hi] at hs
    have hk := h.receiving.kept k c hc
    cases hn : c.posted[n]? with
    | none =>
      simp only [arrived, hn, Option.bind_eq_bind, Option.bind_none] at hs
      cases hs
    | some w =>
      obtain ⟨ov, harr, hspans, hwin⟩ := hk.arrived hn (hl w (by rw [hc]; exact hn)).2
      obtain ⟨-, -, -, hout⟩ := hk.posted_at hn
      simp only [harr, Option.bind_eq_bind, Option.bind_some, Option.pure_def,
        Option.some.injEq] at hs
      subst hs
      have hself : ∀ j, Inside k (Function.update s.threads i (.draining k) j) → j = i := by
        intro j hj
        by_contra hne
        rw [Function.update_of_ne hne] at hj
        exact hout j hj
      refine ⟨h.receiving.turn (fun k' e => ?_) (fun k' e => ?_) ?_,
        h.queued.of_eq rfl rfl rfl (handed_set hc rfl)⟩
      · rw [hi] at e
        cases e
      · exact (Option.some.inj e).symm
      · refine ⟨hspans, ?_, hk.records, hk.state, .inl rfl, ?_, ?_, ?_, ?_⟩
        · show c.stream ++ data = c.handed.flatten ++ ov.window
          rw [hwin, hk.stream, List.append_assoc]
        · intro j j' hj hj'
          rw [hself j hj, hself j' hj']
        · intro hd
          exact absurd (Function.update_self ..) (hd i)
        · intro j hj
          exact absurd (.inr (thread_update hj (by simp))) (hout j)
        · intro _
          exact .inl ⟨i, .inl (Function.update_self ..)⟩
  · rw [if_neg hi] at hs
    cases hs

theorem fail_inv (h : s.Inv) {n : Nat} (hs : s.step (.fail i k n) = some s') : s'.Inv := by
  obtain ⟨c, hc, hs⟩ := Option.bind_eq_some_iff.mp hs
  split at hs
  · rename_i hcond
    obtain ⟨hi, hn⟩ := hcond
    cases hs
    have hk := h.receiving.kept k c hc
    obtain ⟨-, herase, hready, hout⟩ := hk.posted_at (List.getElem?_eq_getElem hn)
    have hnone : ∀ j, ¬ Inside k (Function.update s.threads i (.refused k) j) :=
      fun j hj => hout j (inside_update hj (not_inside (.inr rfl)))
    refine ⟨h.receiving.turn (fun k' e => ?_) (fun k' e => ?_) ?_,
      h.queued.of_eq rfl rfl rfl (handed_set hc rfl)⟩
    · rw [hi] at e
      cases e
    · exact (Option.some.inj e).symm
    · exact ⟨hk.spans, hk.stream, hk.records, hk.state, .inl herase,
        fun j _ hj => absurd hj (hnone j), fun _ => hready.maximal,
        fun j hj => absurd (.inr hj) (hnone j), fun hb => absurd hb hready.good⟩
  · cases hs

theorem pass_inv (h : s.Inv) (hs : s.step (.pass i) = some s') : s'.Inv := by
  simp only [step] at hs
  split at hs
  case h_2 => cases hs
  rename_i k hi
  obtain ⟨c, hc, hs⟩ := Option.bind_eq_some_iff.mp hs
  have hk := h.receiving.kept k c hc
  have hin : Inside k (s.threads i) := .inl hi
  by_cases hw : WholePacket c.session.recvOv.window
  · have hpass := Session.drainBody_whole (fun env frame => some (post k env frame)) hk.spans
      (s.tasks, c.handed) hw
    rw [Option.map_some] at hpass
    simp only [passed, hpass, Option.bind_eq_bind, Option.bind_some] at hs
    simp only [post, Option.pure_def, Option.some.injEq] at hs
    subst hs
    obtain ⟨hspans, hwin⟩ := hk.spans.advance hw.2.2
    refine ⟨h.receiving.set ⟨hspans, ?_, ?_, hk.state, .inl (hk.posted_nil hin), hk.alone, ?_, ?_,
      fun _ => .inl ⟨i, .inl hi⟩⟩, h.queued.post hc rfl⟩
    · show c.stream = (c.handed ++ [_]).flatten ++ _
      rw [hwin, List.flatten_append, List.flatten_singleton, List.append_assoc,
        List.take_append_drop]
      exact hk.stream
    · intro f hf
      rcases List.mem_append.mp hf with hf | hf
      · exact hk.records f hf
      · rw [List.mem_singleton.mp hf]
        exact Records.record_take readsHeader hw
    · exact fun hd => absurd hi (hd i)
    · intro j hj
      obtain rfl := hk.alone i j hin (.inr hj)
      rw [hi] at hj
      cases hj
  · have hpass := Session.drainBody_leave (fun env frame => some (post k env frame)) hk.spans
      (s.tasks, c.handed) hw
    simp only [passed, hpass, Option.bind_eq_bind, Option.bind_some, Option.pure_def,
      Option.some.injEq] at hs
    subst hs
    refine ⟨?_, h.queued.of_eq rfl rfl rfl fun _ => rfl⟩
    have hself : Function.update s.incarnations k (some c) = s.incarnations := by
      rw [← hc, Function.update_eq_self]
    rw [setThread, ← hself]
    have other : ∀ j p, Inside k (Function.update s.threads i p j) → j = i := by
      intro j p hj
      by_contra hne
      rw [Function.update_of_ne hne] at hj
      exact hne (hk.alone j i hj hin)
    refine h.receiving.turn (fun k' e => ?_) (fun k' e => ?_) ?_
    · rw [hi] at e
      exact (Option.some.inj e).symm
    · split at e <;> exact (Option.some.inj e).symm
    · refine ⟨hk.spans, hk.stream, hk.records, hk.state, .inl (hk.posted_nil hin), ?_,
        fun _ => hw, ?_, ?_⟩
      · intro j j' hj hj'
        rw [other j _ hj, other j' _ hj']
      · intro j hj hb
        obtain rfl := other j _ (.inr hj)
        rw [Function.update_self, decide_eq_true hb] at hj
        cases hj
      · intro hb
        refine .inl ⟨i, .inr ?_⟩
        rw [Function.update_self, decide_eq_true hb]
        rfl

/-- The end of `OnRecv`, with a `RegisterRecv` that came to `r`. -/
theorem reposted_inv (h : s.Inv) (hi : s.threads i = .drained k) (hc : s.incarnations k = some c)
    {r : Registered} {w : WsaBuf} (hready : Ready r.session.recvOv w) (hio : r.io = some w)
    (hwin : r.session.recvOv.window = c.session.recvOv.window) :
    ((s.setIncarnation k (registered c r)).setThread i (if r.ok then .idle else .refused k)).Inv := by
  have hk := h.receiving.kept k c hc
  have hin : Inside k (s.threads i) := .inr hi
  have hout : ¬ Inside k (if r.ok then .idle else .refused k) := not_inside (by split <;> simp)
  refine ⟨h.receiving.turn (fun k' e => ?_) (fun k' e => ?_)
    (Kept.register hready hio ?_ hk.records hk.state (hk.posted_nil hin) ?_),
    h.queued.of_eq rfl rfl rfl (handed_set hc rfl)⟩
  · rw [hi] at e
    exact (Option.some.inj e).symm
  · split at e
    · cases e
    · exact (Option.some.inj e).symm
  · rw [hwin, hk.stream]
  · intro j hj
    obtain rfl := hk.alone j i (inside_update hj hout) hin
    rw [Function.update_self] at hj
    exact hout hj

theorem repost_inv (h : s.Inv) {ptr : Option Nat} {queued : Bool}
    (hs : s.step (.repost i ptr queued) = some s') : s'.Inv := by
  simp only [step] at hs
  split at hs
  case h_2 => cases hs
  rename_i k hi
  obtain ⟨c, hc, hs⟩ := Option.bind_eq_some_iff.mp hs
  have hk := h.receiving.kept k c hc
  have hin : Inside k (s.threads i) := .inr hi
  have hw : ¬ WholePacket c.session.recvOv.window := by
    refine hk.maximal fun j hj => ?_
    obtain rfl := hk.alone j i (.inl hj) hin
    rw [hi] at hj
    cases hj
  have hb := hk.drained i hi
  obtain ⟨hset, hwin⟩ := hk.spans.wrap
  rw [← hwin] at hw hb
  obtain ⟨w, hio, hready, hwin'⟩ :=
    registerRecv_ready (s := { c.session with recvOv := c.session.recvOv.wrap }) hset hw hb ptr queued
  rw [Option.pure_def, Option.some.injEq] at hs
  exact hs ▸ reposted_inv h hi hc hready hio (hwin'.trans hwin)

theorem disconnect_inv (h : s.Inv) (hs : s.step (.disconnect i) = some s') : s'.Inv := by
  simp only [step] at hs
  split at hs
  case h_2 => cases hs
  rename_i k hi
  obtain ⟨c, hc, hs⟩ := Option.bind_eq_some_iff.mp hs
  have hk := h.receiving.kept k c hc
  cases hs
  have back : ∀ {j}, Inside k (Function.update s.threads i .idle j) → Inside k (s.threads j) :=
    fun hj => inside_update hj (not_inside (.inl rfl))
  refine ⟨h.receiving.turn (fun k' e => ?_) (fun k' e => by cases e) ?_,
    h.queued.of_eq rfl rfl rfl (handed_set hc rfl)⟩
  · rw [hi] at e
    exact (Option.some.inj e).symm
  · refine ⟨hk.spans, hk.stream, hk.records, .inr (disconnected_state hk.state), ?_, ?_, ?_, ?_,
      fun _ => .inr (disconnected_state hk.state)⟩
    · rcases hk.posted with hp | ⟨w, hp, hready, hout⟩
      · exact .inl hp
      · exact .inr ⟨w, hp, hready, fun j hj => hout j (back hj)⟩
    · exact fun j j' hj hj' => hk.alone j j' (back hj) (back hj')
    · refine fun hd => hk.maximal fun j hj => hd j ?_
      rw [Function.update_of_ne, hj]
      rintro rfl
      rw [hi] at hj
      cases hj
    · exact fun j hj => hk.drained j (thread_update hj (by simp))

theorem close_inv (h : s.Inv) (hs : s.step (.close k) = some s') : s'.Inv := by
  obtain ⟨c, hc, hs⟩ := Option.bind_eq_some_iff.mp hs
  cases hs
  exact ⟨h.receiving.set (h.receiving.kept k c hc).disconnected,
    h.queued.of_eq rfl rfl rfl (handed_set hc rfl)⟩

omit [DecidableEq ι] in
/-- The one worker goes on to `p`, when what it held before and holds then is accounted for. -/
theorem worker_inv (h : s.Inv) {j : Fin Config.kWorkerThreadCount}
    {p : WorkerPhase (κ × List Byte)} {executed tasks : List (κ × List Byte)}
    (hq : ∀ k, lane k executed ++ (lane k p.held ++ lane k tasks) =
      lane k s.executed ++ (lane k (s.workers j).held ++ lane k s.tasks)) :
    ({ s with executed, tasks }.setWorker j p).Inv := by
  refine ⟨h.receiving, fun k j' => ?_⟩
  obtain rfl := Subsingleton.elim j j'
  show lane k executed ++ (lane k (Function.update s.workers j p j).held ++ lane k tasks) = s.handed k
  rw [Function.update_self, hq k]
  exact h.queued k j

theorem pop_inv (h : s.Inv) {j : Fin Config.kWorkerThreadCount} (hs : s.step (.pop j) = some s') :
    s'.Inv := by
  simp only [step] at hs
  split at hs
  case h_2 => cases hs
  rename_i hj
  split at hs
  · cases hs
    exact worker_inv h fun k => by rw [hj]; rfl
  · split at hs
    · cases hs
    · rename_i task tasks ht
      cases hs
      refine worker_inv h fun k => ?_
      rw [hj, ht, ← lane_append]
      rfl

theorem call_inv (h : s.Inv) {j : Fin Config.kWorkerThreadCount} (hs : s.step (.call j) = some s') :
    s'.Inv := by
  simp only [step] at hs
  split at hs
  case h_2 => cases hs
  rename_i task hj
  cases hs
  refine worker_inv h fun k => ?_
  rw [hj, lane_append, List.append_assoc]
  rfl

theorem finish_inv (h : s.Inv) {j : Fin Config.kWorkerThreadCount}
    (hs : s.step (.finish j) = some s') : s'.Inv := by
  simp only [step] at hs
  split at hs
  case h_2 => cases hs
  rename_i task hj
  cases hs
  exact worker_inv h fun k => by rw [hj]; rfl

/-- **One step.** -/
theorem step_inv {e : Event κ ι} (h : s.Inv) (hl : s.Legit e) (hs : s.step e = some s') : s'.Inv := by
  cases e with
  | connect k slot ptr queued => exact connect_inv h hl hs
  | arrive i k n data => exact arrive_inv h hl hs
  | fail i k n => exact fail_inv h hs
  | pass i => exact pass_inv h hs
  | repost i ptr queued => exact repost_inv h hs
  | disconnect i => exact disconnect_inv h hs
  | close k => exact close_inv h hs
  | pop j => exact pop_inv h hs
  | call j => exact call_inv h hs
  | finish j => exact finish_inv h hs
  | shutdown =>
    cases hs
    exact ⟨h.receiving, h.queued⟩

/-! ### One call of `OnRecv` -/

theorem step_pass (hi : s.threads i = .draining k) (hc : s.incarnations k = some c) :
    s.step (.pass i) = s.passed i k c := by
  -- the right side is kept closed, as `drainBody` does not compute
  generalize hx : s.passed i k c = x
  rw [step, hi]
  show (s.incarnations k).bind _ = _
  rw [hc, Option.bind_some, hx]

/-- **A thread left alone runs the loop of `OnRecv`.** -/
theorem passes_run {ov : OverlappedEx} {tasks : List (κ × List Byte)} {frames : List (List Byte)}
    {ok : Bool} : ∀ {fuel : Nat} {s : Delivery κ ι} {c : Incarnation},
      s.threads i = .draining k → s.incarnations k = some c →
      Loop.run (Session.drainBody fun env frame => some (post k env frame)) fuel
        (c.session.recvOv, s.tasks, c.handed) = some (ov, (tasks, frames), ok) →
      ∃ n, exec step s (List.replicate n (.pass i)) =
        some (({ s with tasks }.setIncarnation k
          { c with session := { c.session with recvOv := ov }, handed := frames }).setThread i
            (if ok then .drained k else .refused k))
  | 0, _, _, _, _, h => by cases h
  | fuel + 1, s, c, hi, hc, h => by
      have hpassed := step_pass hi hc
      rcases Loop.run_cases h with hb | ⟨⟨ov₁, tasks₁, frames₁⟩, hb, h⟩
      · obtain ⟨rfl, he⟩ := Session.drainBody_leave_eq hb
        obtain ⟨rfl, rfl⟩ := Prod.mk.inj he
        refine ⟨1, ?_⟩
        rw [List.replicate_one, exec_cons, hpassed, passed, hb]
        simp only [Option.bind_eq_bind, Option.bind_some, Option.pure_def, exec_nil, setIncarnation]
        rw [← hc, Function.update_eq_self]
      · obtain ⟨n, hn⟩ := passes_run (s := { s with tasks := tasks₁ }.setIncarnation k
          { c with session := { c.session with recvOv := ov₁ }, handed := frames₁ }) hi
          (Function.update_self ..) h
        refine ⟨n + 1, ?_⟩
        rw [List.replicate_succ, exec_cons, hpassed, passed, hb]
        simp only [Option.bind_eq_bind, Option.bind_some, Option.pure_def, hn]
        simp only [setIncarnation, Function.update_idem]

/-! ### Runs -/

variable {es : List (Event κ ι)}

theorem run_inv (r : Runs step Legit start es s) : s.Inv :=
  r.invariant start_inv fun _ _ _ h hl hs => step_inv h hl hs

/-- At most one receive of an incarnation is outstanding or handled by a thread. -/
theorem one_receive (r : Runs step Legit start es s) (hc : s.incarnations k = some c) :
    c.posted.length ≤ 1 ∧
      (∀ i, Inside k (s.threads i) → c.posted = [] ∧ ∀ j, Inside k (s.threads j) → j = i) := by
  have hk := (run_inv r).receiving.kept k c hc
  refine ⟨?_, fun i hi => ⟨hk.posted_nil hi, fun j hj => hk.alone j i hj hi⟩⟩
  rcases hk.posted with hp | ⟨w, hp, -⟩
  · rw [hp]
    exact Nat.zero_le 1
  · rw [hp]
    exact Nat.le_refl 1

/-- **Per-session packet order.**  In every run, what `Execute` has been called on of one
incarnation is a prefix of the packets of its byte stream, whatever bytes are still to come; and
what has been posted is what has been executed, what the worker has just popped, and what is queued,
in this order. -/
theorem executed_in_order (r : Runs step Legit start es s) (hc : s.incarnations k = some c) :
    (∀ rest, lane k s.executed <+: (Records.parse kHeaderSize headerSize (c.stream ++ rest)).1) ∧
      ∀ j, lane k s.executed ++ (lane k (s.workers j).held ++ lane k s.tasks) = c.handed := by
  have hinv := run_inv r
  have hk := hinv.receiving.kept k c hc
  have hq : ∀ j, lane k s.executed ++ (lane k (s.workers j).held ++ lane k s.tasks) = c.handed :=
    fun j => (hinv.queued k j).trans (handed_of hc)
  exact ⟨fun rest => (hinv.executed_prefix hc).trans (hk.handed_prefix rest), hq⟩

end Delivery

end IocpServer
