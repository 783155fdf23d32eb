import IocpServer.Client.Replies
import IocpServer.Server.Delivery
import IocpServer.Server.Relay

/-!
# Client — Chatroom

Clients connected to one server, from `SendPacket` of the one to `ReceivePacket` of the others.

`send`, `recv` and the completions move any number of bytes, and `OnRecv` of all sessions, `OnSend` of
all sessions and the worker take turns in any order.  There is one worker, so one `Execute` follows
the other; it changes each ring once at most, by a `SendPacket` under `sendCs_`, so that an `OnSend`
meanwhile comes to the same before or after it.  A session has one receive at a time
(`Delivery.executed_in_order`) and one send, posted on its `wsaBuf_` (`Sender.send_stream`).  Nobody
connects or disconnects.

* `Line.Up`, `Line.Down`: the two directions of a connection.
* `step_inv`: the invariant of one step.
* `chatroom_order`: what is heard, is heard in one order.
* `chatroom_delivers`: while the rings have room, everything is heard.
-/

namespace IocpServer

open PacketPool PacketHandler
open Delivery (Ready)

/-- The receive of a session: it is outstanding; or `OnRecv` is in its loop, has left that by `break`,
or by `return false`. -/
inductive Recv where
  | posted (w : WsaBuf)
  | draining
  | drained
  | refused

/-- The buffer handed to Winsock. -/
def Recv.wsaBuf : Recv → Option WsaBuf
  | .posted w => some w
  | _ => none

/-- A connection: the client at its end, the bytes that have arrived at the server, the receive of
its session, and the bytes completed by the sends of its session. -/
structure Line where
  talk : Talk
  arrived : List Byte
  recv : Recv
  completed : List Byte

/-- The server with its queue of tasks, by session and packet, the connections, and the packets
executed, with their sessions. -/
structure Chatroom where
  server : Server
  packets : PacketPool
  tasks : List (Nat × Nat)
  lines : Nat → Line
  executed : List (Nat × List Byte)

namespace Chatroom

/-- `k` is the slot of a session. -/
inductive Event where
  /-- A call of `SendPacket` by the client, or a return of its `send` or `recv`. -/
  | client (k : Nat) (e : Talk.Event)
  /-- The completion of a `WSARecv`, up to the loop of `OnRecv`. -/
  | arrive (k : Nat) (data : List Byte)
  /-- One pass through that loop. -/
  | pass (k : Nat)
  /-- The rest of `OnRecv`. -/
  | repost (k : Nat)
  /-- The worker takes a task and runs it. -/
  | work
  /-- The completion of a `WSASend`, and `OnSend`. -/
  | complete (k : Nat) (bytesTransferred : Nat)

/-- What `OnRecv` of the session `k` does with a packet. -/
def post (k : Nat) : PacketPool × List (Nat × Nat) → List Byte →
    Option (PacketPool × List (Nat × Nat))
  | (packets, tasks), frame => do
    let (packets, packet) ← acquirePacket packets frame
    return (packets, tasks ++ [(k, packet)])

variable (s : Chatroom) (k : Nat)

def setLine (line : Line) : Chatroom := { s with lines := upd s.lines k line }

def setSession (session : Session) : Chatroom :=
  { s with server := { s.server with sessions := upd s.server.sessions k session } }

def step : Event → Option Chatroom
  | .client k e => do
    let talk ← (s.lines k).talk.step e
    return s.setLine k { s.lines k with talk }
  | .arrive k data => do
    let session ← rd Config.kMaxSession s.server.sessions k
    match (s.lines k).recv with
    | .posted w => do
      let buffer ← session.recvOv.buffer.write w.buf data
      let ov := { session.recvOv with
        buffer, sendPos := u64 (session.recvOv.sendPos + data.length) }
      return (s.setSession k { session with recvOv := ov }).setLine k
        { s.lines k with arrived := (s.lines k).arrived ++ data, recv := .draining }
    | _ => none
  | .pass k => do
    let session ← rd Config.kMaxSession s.server.sessions k
    match (s.lines k).recv with
    | .draining => do
      let pass ← Session.drainBody (post k) (session.recvOv, s.packets, s.tasks)
      match pass with
      | .again (ov, packets, tasks) =>
        return { s with packets, tasks }.setSession k { session with recvOv := ov }
      | .leave (_, _, ok) =>
        return s.setLine k { s.lines k with recv := if ok then .drained else .refused }
    | _ => none
  | .repost k => do
    let session ← rd Config.kMaxSession s.server.sessions k
    match (s.lines k).recv with
    | .drained =>
      let ptr := (s.server.getSession session.handle).join
      let r := { session with recvOv := session.recvOv.wrap }.registerRecv ptr true
      return (s.setSession k r.session).setLine k
        { s.lines k with recv := match r.io with
          | some w => .posted w
          | none => .refused }
    | _ => none
  | .work =>
    match s.tasks with
    | [] => none
    | (k, packet) :: tasks => do
      let block ← rd Config.kMaxPacketCount s.packets.obj (slotIndex packet)
      let (packets, server) ← execute (fun _ => true) s.packets s.server k block.bytes
      let packets ← packets.releaseRef packet
      return { s with server, packets, tasks, executed := s.executed ++ [(k, block.sent)] }
  | .complete k bytesTransferred => do
    let session ← rd Config.kMaxSession s.server.sessions k
    let data ← session.sendOv.buffer.read session.sendOv.wsaBuf.buf bytesTransferred
    let ptr := (s.server.getSession session.handle).join
    let r ← session.onSend bytesTransferred ptr true
    return (s.setSession k r.session).setLine k
      { s.lines k with completed := (s.lines k).completed ++ data }

def Connected : Prop :=
  k < Config.kMaxSession ∧
    (s.server.sessionPool.cells k).state = SessionState.kConnected.toNat

/-- What the two sockets of a connection promise, and that a client sends packets as long as they
say, and moves with their coordinates. -/
def Legit : Event → Prop
  | .client k e => s.Connected k ∧ Talk.Legit [(s.lines k).completed] (s.lines k).talk e ∧
      match e with
      | .sendPacket memory => Sayable (memory.take (headerSize memory))
      | _ => True
  | .arrive k data => s.Connected k ∧ 1 ≤ data.length ∧
      (s.lines k).arrived ++ data <+: (s.lines k).talk.sent ∧
      ∀ w ∈ (s.lines k).recv.wsaBuf, data.length ≤ w.len
  | .pass k | .repost k => s.Connected k
  | .work => True
  | .complete k n => s.Connected k ∧ (s.server.sessions k).isSending = true ∧ 1 ≤ n ∧
      n ≤ (s.server.sessions k).sendOv.wsaBuf.len

instance : Decidable (s.Connected k) := inferInstanceAs (Decidable (_ ∧ _))

instance : DecidablePred s.Legit
  | .client _ (.sendPacket _) => inferInstanceAs (Decidable (_ ∧ _ ∧ Sayable _))
  | .client _ (.sent _) | .client _ (.recv _) => inferInstanceAs (Decidable (_ ∧ _ ∧ True))
  | .arrive k _ => inferInstanceAs (Decidable (_ ∧ _ ∧ _ ∧ ∀ w ∈ (s.lines k).recv.wsaBuf, _))
  | .pass k | .repost k => inferInstanceAs (Decidable (s.Connected k))
  | .work => inferInstanceAs (Decidable True)
  | .complete .. => inferInstanceAs (Decidable (_ ∧ _ ∧ _ ∧ _))

/-- The rings have room for a packet of any size when the worker takes a task. -/
def Roomy : Event → Prop
  | .work => ∀ k, s.Connected k → (s.server.sessions k).HasRoom Config.kMaxPacketSize
  | _ => True

/-- What the others have said to the client `k`, in the order in which it was executed. -/
def spoken : List Relayed :=
  (s.executed.filter (·.1 ≠ k)).filterMap fun e =>
    Relayed.said (s.server.sessionPool.handle e.1) e.2

/-- What the client `k` has heard of the others. -/
def heard : List Relayed := (s.lines k).talk.client.heard.filterMap Relayed.decode

/-- The packets of the session `k` that have been executed or are queued. -/
def handed : List (List Byte) := lane k s.executed ++ lane k (contents s.packets s.tasks)

end Chatroom

/-! ### One connection -/

namespace Line

variable {line : Line} {session : Session} {handed told : List (List Byte)}

/-- From the client to the tasks: `handed` is the packets handed over. -/
structure Up (line : Line) (session : Session) (handed : List (List Byte)) : Prop where
  spans : session.recvOv.Spans
  stream : line.arrived = handed.flatten ++ session.recvOv.window
  records : ∀ f ∈ handed, kHeaderSize ≤ f.length ∧ headerSize f = f.length
  taken : line.arrived <+: line.talk.sent
  sent : line.talk.sent <+: line.talk.said.flatten
  sayable : ∀ p ∈ line.talk.said, Sayable p
  posted : ∀ w, line.recv = .posted w → Ready session.recvOv w
  drained : line.recv = .drained → ¬ WholePacket session.recvOv.window
  accepted : line.recv ≠ .refused

/-- The bytes that have arrived begin what the client has said. -/
theorem Up.front (h : Up line session handed) :
    handed.flatten ++ session.recvOv.window <+: line.talk.said.flatten := by
  rw [← h.stream]
  exact h.taken.trans h.sent

/-- **What is handed over** are the first packets the client has said. -/
theorem Up.handed_front (h : Up line session handed) : handed <+: line.talk.said :=
  Records.prefix_of_flatten readsHeader (by decide) h.records (fun p hp => (h.sayable p hp).frame)
    h.front

/-- There is no bad header among them. -/
theorem Up.good (h : Up line session handed) : ¬ BadHeader session.recvOv.window :=
  Records.not_malformed readsHeader (by decide) h.records (fun p hp => (h.sayable p hp).frame) h.front

/-- Bytes arrive where the `WSARecv` points. -/
theorem Up.arrive (h : Up line session handed) {w : WsaBuf} {data : List Byte}
    (hw : line.recv = .posted w) (hlen : data.length ≤ w.len)
    (hsent : line.arrived ++ data <+: line.talk.sent) :
    ∃ buffer, session.recvOv.buffer.write w.buf data = some buffer ∧
      Up { line with arrived := line.arrived ++ data, recv := .draining }
        { session with recvOv := { session.recvOv with
          buffer, sendPos := u64 (session.recvOv.sendPos + data.length) } } handed := by
  have hready := h.posted w hw
  have hfree : session.recvOv.window.length + data.length ≤ session.recvOv.buffer.size := by
    rw [← hready.len, Nat.add_comm]
    exact Nat.add_le_add_right hlen _
  obtain ⟨buffer, hwrite, hset, hwin⟩ := hready.settled.extend hfree
  refine ⟨buffer, hready.buf ▸ hwrite, hset.spans, ?_, h.records, hsent, h.sent, h.sayable,
    fun w' hw' => ?_, fun hd => ?_, Recv.noConfusion⟩
  · show line.arrived ++ data = _
    rw [hwin, h.stream, List.append_assoc]
  · cases hw'
  · cases hd

/-- A pass that hands over a packet. -/
theorem Up.again (h : Up line session handed) (hrecv : line.recv = .draining)
    (hw : WholePacket session.recvOv.window) :
    Up line { session with recvOv := { session.recvOv with
        recvPos := u64 (session.recvOv.recvPos + headerSize session.recvOv.window) } }
      (handed ++ [session.recvOv.window.take (headerSize session.recvOv.window)]) := by
  obtain ⟨hspans, hwin⟩ := h.spans.advance hw.2.2
  refine ⟨hspans, ?_, fun f hf => ?_, h.taken, h.sent, h.sayable, fun w hp => ?_, fun hd => ?_,
    h.accepted⟩
  · rw [h.stream, hwin, List.flatten_append, List.flatten_singleton, List.append_assoc,
      List.take_append_drop]
  · rcases List.mem_append.mp hf with hf | hf
    · exact h.records f hf
    · rw [List.mem_singleton.mp hf]
      exact Records.record_take readsHeader hw
  · rw [hrecv] at hp
    cases hp
  · rw [hrecv] at hd
    cases hd

/-- A pass that leaves the loop. -/
theorem Up.leave (h : Up line session handed) (hw : ¬ WholePacket session.recvOv.window) :
    Up { line with recv := .drained } session handed where
  spans := h.spans
  stream := h.stream
  records := h.records
  taken := h.taken
  sent := h.sent
  sayable := h.sayable
  posted _ hp := Recv.noConfusion hp
  drained _ := hw
  accepted := Recv.noConfusion

/-- The next `WSARecv`. -/
theorem Up.repost (h : Up line session handed) (hd : line.recv = .drained) (ptr : Option Nat) :
    ∃ w, ({ session with recvOv := session.recvOv.wrap }.registerRecv ptr true).io = some w ∧
      Up { line with recv := .posted w }
        ({ session with recvOv := session.recvOv.wrap }.registerRecv ptr true).session handed := by
  obtain ⟨hset, hwin⟩ := h.spans.wrap
  have hgood := h.good
  have hwhole := h.drained hd
  rw [← hwin] at hgood hwhole
  obtain ⟨w, hio, hready, hwin'⟩ := Delivery.registerRecv_ready
    (s := { session with recvOv := session.recvOv.wrap }) hset hwhole hgood ptr true
  refine ⟨w, hio, hready.settled.spans, ?_, h.records, h.taken, h.sent, h.sayable, fun w' hw' => ?_,
    fun hd => ?_, Recv.noConfusion⟩
  · rw [hwin', hwin]
    exact h.stream
  · cases hw'
    exact hready
  · cases hd

/-- What is done on the sending side does not matter. -/
theorem Up.frame (h : Up line session handed) {session' : Session}
    (hov : session'.recvOv = session.recvOv) (completed : List Byte) :
    Up { line with completed } session' handed where
  spans := hov ▸ h.spans
  stream := hov ▸ h.stream
  records := h.records
  taken := h.taken
  sent := h.sent
  sayable := h.sayable
  posted := hov ▸ h.posted
  drained := hov ▸ h.drained
  accepted := h.accepted

/-- From the rings to the client: `told` is the packets that have come into the ring. -/
structure Down (line : Line) (session : Session) (told : List (List Byte)) : Prop where
  sending : session.Sending
  stream : line.completed ++ session.sendOv.window = told.flatten
  fits : ∀ p ∈ told, Client.Fits p
  talk : Talk.Inv told line.talk
  received : line.talk.received <+: line.completed

/-- **What the client hears** are the first packets it is told. -/
theorem Down.heard_front (h : Down line session told) : line.talk.client.heard <+: told :=
  h.talk.hears.heard

/-- What is done on the receiving side does not matter. -/
theorem Down.frame (h : Down line session told) {line' : Line} {session' : Session}
    (hov : session'.sendOv = session.sendOv) (hs : session'.isSending = session.isSending)
    (htalk : line'.talk = line.talk) (hcompleted : line'.completed = line.completed) :
    Down line' session' told where
  sending := ⟨hov ▸ h.sending.settled, hov ▸ hs ▸ h.sending.idle, hov ▸ hs ▸ h.sending.busy⟩
  stream := by
    rw [hov, hcompleted]
    exact h.stream
  fits := h.fits
  talk := htalk ▸ h.talk
  received := by
    rw [htalk, hcompleted]
    exact h.received

/-- `OnSend`. -/
theorem Down.complete (h : Down line session told) (hs : session.isSending = true) {n : Nat}
    (hn : n ≤ session.sendOv.wsaBuf.len) (ptr : Option Nat) :
    ∃ data r, session.sendOv.buffer.read session.sendOv.wsaBuf.buf n = some data ∧
      session.onSend n ptr true = some r ∧
      Down { line with completed := line.completed ++ data } r.session told := by
  obtain ⟨hbuf, hlen⟩ := h.sending.busy hs
  have hread := h.sending.settled.spans.read (hn.trans hlen)
  obtain ⟨r, hr, hsending, hwin⟩ := h.sending.onSend hs (hn.trans hlen) ptr
  refine ⟨_, r, hbuf ▸ hread, hr, hsending, ?_, h.fits, h.talk, ?_⟩
  · show line.completed ++ session.sendOv.window.take n ++ _ = _
    rw [hwin, List.append_assoc, List.take_append_drop]
    exact h.stream
  · exact h.received.trans (List.prefix_append _ _)

end Line

/-- More packets may come into the stream. -/
theorem Talk.Inv.append {ps : List (List Byte)} {s : Talk} (h : Talk.Inv ps s)
    (qs : List (List Byte)) : Talk.Inv (ps ++ qs) s :=
  ⟨h.hears.append qs, h.busy, h.idle, h.front⟩

/-- `Execute` has put packets into the ring. -/
theorem Line.Down.tell {line : Line} {session session' : Session} {told ps : List (List Byte)}
    {ms : List Relayed} (h : Line.Down line session told) (ht : Tells session session' ms ps)
    (hs : session'.Sending) : Line.Down line session' (told ++ ps) where
  sending := hs
  stream := by
    rw [ht.window, ← List.append_assoc, h.stream, List.flatten_append]
  fits p hp := (List.mem_append.mp hp).elim (h.fits p) (ht.fits p)
  talk := h.talk.append ps
  received := h.received

namespace Talk

variable {ps qs : List (List Byte)} {s t : Talk} {e : Event}

theorem Legit.mono (h : Legit ps s e) (hpre : ps.flatten <+: qs.flatten) : Legit qs s e := by
  cases e with
  | sendPacket memory => exact h
  | sent result => exact h
  | recv result => exact ⟨h.1, fun data hdata => ⟨(h.2 data hdata).1, (h.2 data hdata).2.trans hpre⟩⟩

/-- What one step adds to the two streams. -/
theorem step_grows (h : s.step e = some t) :
    s.sent <+: t.sent ∧
      (t.said = s.said ∨
        ∃ memory, e = .sendPacket memory ∧ t.said = s.said ++ [memory.take (headerSize memory)]) ∧
      (t.received = s.received ∨ ∃ data, e = .recv (some data) ∧ t.received = s.received ++ data) := by
  cases e with
  | sendPacket memory =>
    obtain ⟨client, -, h⟩ := Option.bind_eq_some_iff.mp h
    cases h
    exact ⟨List.prefix_refl _, .inr ⟨memory, rfl, rfl⟩, .inl rfl⟩
  | sent result =>
    obtain ⟨⟨client, data⟩, -, h⟩ := Option.bind_eq_some_iff.mp h
    cases h
    exact ⟨List.prefix_append _ _, .inl rfl, .inl rfl⟩
  | recv result =>
    obtain ⟨client, -, h⟩ := Option.bind_eq_some_iff.mp h
    cases h
    refine ⟨List.prefix_refl _, .inl rfl, ?_⟩
    cases result with
    | none => exact .inl (List.append_nil _)
    | some data => exact .inr ⟨data, rfl, rfl⟩

end Talk

/-- The client says something, or its socket takes or brings bytes. -/
theorem Line.client {line : Line} {session : Session} {handed told : List (List Byte)}
    (hup : line.Up session handed) (hdown : line.Down session told) {e : Talk.Event}
    (hl : Talk.Legit [line.completed] line.talk e)
    (hsay : ∀ memory, e = .sendPacket memory → Sayable (memory.take (headerSize memory)))
    {talk : Talk} (hs : line.talk.step e = some talk) :
    Line.Up { line with talk } session handed ∧ Line.Down { line with talk } session told := by
  have hcompleted : line.completed <+: told.flatten := ⟨_, hdown.stream⟩
  obtain ⟨talk', hs', hinv⟩ := Talk.step_inv hdown.fits hdown.talk
    (hl.mono (by rwa [List.flatten_singleton]))
  obtain rfl := Option.some.inj (hs'.symm.trans hs)
  obtain ⟨hsent, hsaid, hreceived⟩ := Talk.step_grows hs
  refine ⟨⟨hup.spans, hup.stream, hup.records, hup.taken.trans hsent, hinv.front, fun p hp => ?_,
    hup.posted, hup.drained, hup.accepted⟩, ⟨hdown.sending, hdown.stream, hdown.fits, hinv, ?_⟩⟩
  · have hp' : p ∈ talk'.said := hp
    rcases hsaid with hsame | ⟨memory, rfl, hmore⟩
    · rw [hsame] at hp'
      exact hup.sayable p hp'
    · rw [hmore, List.mem_append, List.mem_singleton] at hp'
      rcases hp' with hp' | rfl
      · exact hup.sayable p hp'
      · exact hsay memory rfl
  · show talk'.received <+: line.completed
    rcases hreceived with hsame | ⟨data, rfl, hmore⟩
    · rw [hsame]
      exact hdown.received
    · have hpre := (hl.2 data rfl).2
      rw [List.flatten_singleton] at hpre
      rw [hmore]
      exact hpre

/-- The states, the pointers and the handles of the sessions in `w'` are those in `w`. -/
structure Server.Seated (w w' : Server) : Prop where
  pool : w'.sessionPool = w.sessionPool
  ptrs : w'.sessionPtrs = w.sessionPtrs
  handle : ∀ k, (w'.sessions k).handle = (w.sessions k).handle

/-- Whoever can be found to be sent to, can still be found. -/
theorem PacketHandler.Relaying.seated {w w' : Server} {k : Nat} (h : Relaying w k)
    (hs : w.Seated w')
    (hset : ∀ j < Config.kMaxSession, (w'.sessionPool.cells j).state = SessionState.kConnected.toNat →
      (w'.sessions j).sendOv.Settled) : Relaying w' k where
  listed := by
    refine ⟨hs.pool ▸ h.listed.rep, fun j hj hc => ?_⟩
    have hsettled := hset j hj hc
    rw [hs.pool] at hc
    obtain ⟨-, hentry, hhandle, -⟩ := h.listed.linked j hj hc
    refine ⟨hj, ?_, ?_, hsettled⟩
    · rw [hs.ptrs, hs.pool]
      exact hentry
    · rw [hs.handle, hs.pool]
      exact hhandle
  inRange := h.inRange
  handle := by
    rw [hs.handle, hs.pool]
    exact h.handle
  bound := by
    rw [hs.handle]
    exact h.bound

namespace Chatroom

/-- `told k` is all that has come into the ring of the session `k`. -/
structure Inv (w : Server) (told : Nat → List (List Byte)) (s : Chatroom) : Prop where
  seated : w.Seated s.server
  queued : Queued s.packets s.tasks
  members : ∀ e ∈ s.executed ++ contents s.packets s.tasks, s.Connected e.1
  up : ∀ k, s.Connected k → (s.lines k).Up (s.server.sessions k) (s.handed k)
  down : ∀ k, s.Connected k → (s.lines k).Down (s.server.sessions k) (told k)
  order : ∀ k, s.Connected k → ((told k).filterMap Relayed.decode).Sublist (s.spoken k)

/-- Everything that has been said has been told. -/
def Complete (told : Nat → List (List Byte)) (s : Chatroom) : Prop :=
  ∀ k, s.Connected k → (told k).filterMap Relayed.decode = s.spoken k

variable {w : Server} {told : Nat → List (List Byte)} {s s' : Chatroom} {k : Nat}

theorem setSession_self (s : Chatroom) (k : Nat) : s.setSession k (s.server.sessions k) = s := by
  have hsame : upd s.server.sessions k (s.server.sessions k) = s.server.sessions :=
    Function.update_eq_self k s.server.sessions
  rw [setSession, hsame]

/-- A step on one connection that takes no task. -/
theorem Inv.turn (h : Inv w told s) (hk : s.Connected k) {session : Session} {line : Line}
    {packets : PacketPool} {tasks : List (Nat × Nat)}
    (hhandle : session.handle = (s.server.sessions k).handle) (hq : Queued packets tasks)
    (hmem : ∀ e ∈ contents packets tasks, e ∈ contents s.packets s.tasks ∨ e.1 = k)
    (hlane : ∀ j, j ≠ k → lane j (contents packets tasks) = lane j (contents s.packets s.tasks))
    (hup : line.Up session (lane k s.executed ++ lane k (contents packets tasks)))
    (hdown : line.Down session (told k)) :
    Inv w told (({ s with packets, tasks }.setSession k session).setLine k line) where
  seated := by
    refine ⟨h.seated.pool, h.seated.ptrs, fun j => ?_⟩
    rw [← h.seated.handle j]
    show (upd s.server.sessions k session j).handle = _
    by_cases hj : j = k
    · rw [hj, upd_same]
      exact hhandle
    · rw [upd_other hj]
  queued := hq
  members e he := by
    rcases List.mem_append.mp he with he | he
    · exact h.members e (List.mem_append_left _ he)
    · rcases hmem e he with he | rfl
      · exact h.members e (List.mem_append_right _ he)
      · exact hk
  up j hj := by
    show (upd s.lines k line j).Up (upd s.server.sessions k session j)
      (lane j s.executed ++ lane j (contents packets tasks))
    by_cases hjk : j = k
    · rw [hjk, upd_same, upd_same]
      exact hup
    · rw [upd_other hjk, upd_other hjk, hlane j hjk]
      exact h.up j hj
  down j hj := by
    show (upd s.lines k line j).Down (upd s.server.sessions k session j) (told j)
    by_cases hjk : j = k
    · rw [hjk, upd_same, upd_same]
      exact hdown
    · rw [upd_other hjk, upd_other hjk]
      exact h.down j hj
  order := h.order

/-- The same, of a step that leaves the queue alone. -/
theorem Inv.turn_line (h : Inv w told s) (hk : s.Connected k) {session : Session} {line : Line}
    (hhandle : session.handle = (s.server.sessions k).handle)
    (hup : line.Up session (s.handed k)) (hdown : line.Down session (told k)) :
    Inv w told ((s.setSession k session).setLine k line) :=
  h.turn hk hhandle h.queued (fun _ he => .inl he) (fun _ _ => rfl) hup hdown

/-- What is said by a packet that is executed. -/
theorem spoken_executed (s : Chatroom) {server : Server}
    (hpool : server.sessionPool = s.server.sessionPool) (packets : PacketPool)
    (tasks : List (Nat × Nat)) (self : Nat) (packet : List Byte) (k : Nat) :
    ({ s with server, packets, tasks, executed := s.executed ++ [(self, packet)] } : Chatroom).spoken k =
      s.spoken k ++ if k = self then []
        else (Relayed.said (s.server.sessionPool.handle self) packet).toList := by
  simp only [spoken, hpool, List.filter_append, List.filterMap_append]
  refine congrArg _ ?_
  by_cases hk : k = self
  · subst hk
    simp only [ne_eq, not_true_eq_false, decide_false, List.filter_cons, Bool.false_eq_true,
      if_false, List.filter_nil, List.filterMap_nil, if_true]
  · have hne : self ≠ k := Ne.symm hk
    simp only [if_neg hk, List.filter_cons, ne_eq, hne, not_false_eq_true, decide_true, if_true,
      List.filter_nil]
    cases hsaid : Relayed.said (s.server.sessionPool.handle self) packet with
    | none => simp only [List.filterMap_cons, hsaid, List.filterMap_nil, Option.toList_none]
    | some m => simp only [List.filterMap_cons, hsaid, List.filterMap_nil, Option.toList_some]

/-- **The worker takes a task.** -/
theorem work_inv (hw : ∀ k < Config.kMaxSession,
      (w.sessionPool.cells k).state = SessionState.kConnected.toNat → Relaying w k)
    (h : Inv w told s) (hs : s.step .work = some s') :
    ∃ told', Inv w told' s' ∧ (s.Roomy .work → Complete told s → Complete told' s') := by
  rw [step] at hs
  split at hs
  · cases hs
  rename_i self packet tasks htasks
  obtain ⟨block, hblock, hs⟩ := Option.bind_eq_some_iff.mp hs
  obtain ⟨⟨packets, server⟩, hrun, hs⟩ := Option.bind_eq_some_iff.mp hs
  obtain ⟨packets', hrelease, hs⟩ := Option.bind_eq_some_iff.mp hs
  cases hs
  -- the packet at the front of the queue
  have hqueued := h.queued
  rw [htasks] at hqueued
  have hlt := (hqueued.out _ List.mem_cons_self).1
  rw [rd_of_lt hlt] at hblock
  cases hblock
  generalize hb : s.packets.obj (slotIndex packet) = block at hrun
  have hfront : contents s.packets s.tasks = (self, block.sent) :: contents s.packets tasks := by
    rw [htasks, contents, List.map_cons, hb]
    rfl
  have hself : s.Connected self := by
    refine h.members (self, block.sent) (List.mem_append_right _ ?_)
    rw [hfront]
    exact List.mem_cons_self
  have hsay : Sayable block.sent := by
    refine (h.up self hself).sayable _ ((h.up self hself).handed_front.subset ?_)
    rw [handed, hfront, lane_cons_self]
    exact List.mem_append_right _ List.mem_cons_self
  have hfit : headerSize block.sent ≤ Config.kMaxPacketSize := by
    rw [hsay.frame.2, ← block.size_eq]
    exact List.length_take_le' ..
  have hbytes : block.sent ++ block.bytes.drop (headerSize block.bytes) = block.bytes :=
    List.take_append_drop _ _
  rw [← hbytes, execute_append hsay.frame] at hrun
  -- the blocks
  obtain ⟨hqueued', hpackets⟩ := hqueued.kept (execute_keeps h.queued.rep hfit hrun)
  obtain ⟨hqueued'', hobj⟩ := hqueued'.release hrelease
  have hrest : contents packets' tasks = contents s.packets tasks := by
    rw [contents, List.map_cons, contents, List.map_cons, List.cons.injEq] at hpackets
    rw [contents, hobj]
    exact hpackets.2
  -- the sessions
  have heffect := execute_effect hrun
  have hpool := heffect.sessionPool
  obtain ⟨hptrs, hhandles⟩ := heffect.handles
  have hsending : ∀ j, s.Connected j → (server.sessions j).Sending ∧
      (server.sessions j).recvOv = (s.server.sessions j).recvOv :=
    fun j hj => heffect.sending (h.down j hj).sending
  have hrelaying : Relaying s.server self := by
    refine (hw self hself.1 ?_).seated h.seated fun j hj hc => (h.down j ⟨hj, hc⟩).sending.settled
    rw [← h.seated.pool]
    exact hself.2
  have htells : ∀ j, ∃ ps, s.Connected j → Tells (s.server.sessions j) (server.sessions j)
      (if j = self then [] else
        (Relayed.said (s.server.sessionPool.handle self) block.sent).toList) ps := by
    intro j
    by_cases hj : s.Connected j
    · obtain ⟨ps, hps⟩ := execute_tells hsay hfit h.queued.rep hrelaying
        (h.down self hself).sending.settled hrun hj.1 hj.2
      rw [hrelaying.handle] at hps
      exact ⟨ps, fun _ => hps⟩
    · exact ⟨[], fun hj' => absurd hj' hj⟩
  choose ps hps using htells
  have hconnected : ∀ j, Connected { s with
      server, packets := packets', tasks, executed := s.executed ++ [(self, block.sent)] } j →
        s.Connected j := by
    rintro j ⟨hj, hc⟩
    exact ⟨hj, hpool ▸ hc⟩
  have hspoken := spoken_executed s hpool packets' tasks self block.sent
  refine ⟨fun j => told j ++ ps j, ⟨?_, hqueued'', fun e he => ?_, fun j hj => ?_, fun j hj => ?_,
    fun j hj => ?_⟩, fun hroomy hcomplete j hj => ?_⟩
  · exact ⟨hpool.trans h.seated.pool, hptrs.trans h.seated.ptrs,
      fun j => (hhandles j).trans (h.seated.handle j)⟩
  · have hmem : e ∈ s.executed ++ contents s.packets s.tasks := by
      rw [hfront]
      rw [hrest, List.append_assoc] at he
      exact he
    obtain ⟨hlt', hc⟩ := h.members e hmem
    exact ⟨hlt', hpool.symm ▸ hc⟩
  · have hup := h.up j (hconnected j hj)
    have hhanded : lane j (s.executed ++ [(self, block.sent)]) ++ lane j (contents packets' tasks) =
        s.handed j := by
      rw [handed, hfront, hrest, lane_append, List.append_assoc, ← lane_append, List.singleton_append]
    show (s.lines j).Up (server.sessions j) _
    rw [handed, hhanded]
    obtain ⟨-, hrecv⟩ := hsending j (hconnected j hj)
    exact hup.frame hrecv _
  · have hj' := hconnected j hj
    exact (h.down j hj').tell (hps j hj') (hsending j hj').1
  · have hj' := hconnected j hj
    rw [hspoken, List.filterMap_append]
    exact (h.order j hj').append (hps j hj').order
  · have hj' := hconnected j hj
    rw [hspoken, List.filterMap_append, hcomplete j hj', (hps j hj').all (hroomy j hj')]

/-- A pass through the loop of `OnRecv`. -/
theorem pass_inv (h : Inv w told s) (hk : s.Connected k) (hs : s.step (.pass k) = some s') :
    Inv w told s' ∧ s'.server.sessionPool = s.server.sessionPool ∧ s'.executed = s.executed := by
  have hup := h.up k hk
  have hdown := h.down k hk
  rw [step, rd_of_lt hk.1, Option.bind_eq_bind, Option.bind_some] at hs
  split at hs
  swap
  · cases hs
  rename_i hrecv
  obtain ⟨pass, hpass, hs⟩ := Option.bind_eq_some_iff.mp hs
  by_cases hw : WholePacket (s.server.sessions k).recvOv.window
  · rw [Session.drainBody_whole (post k) hup.spans _ hw] at hpass
    obtain ⟨⟨packets, tasks⟩, hpost, rfl⟩ := Option.map_eq_some_iff.mp hpass
    cases hs
    obtain ⟨⟨packets', packet⟩, hacquire, hpost⟩ := Option.bind_eq_some_iff.mp hpost
    cases hpost
    have hagain := hup.again hrecv hw
    obtain ⟨hqueued, hcontents⟩ := h.queued.acquire (Records.record_take readsHeader hw) hacquire k
    refine ⟨?_, rfl, rfl⟩
    have hline : upd s.lines k (s.lines k) = s.lines := Function.update_eq_self k s.lines
    have hinv : Inv w told (({ s with
        packets, tasks := s.tasks ++ [(k, packet)] }.setSession k { s.server.sessions k with
        recvOv := { (s.server.sessions k).recvOv with
          recvPos := u64 ((s.server.sessions k).recvOv.recvPos +
            headerSize (s.server.sessions k).recvOv.window) } }).setLine k (s.lines k)) := by
      refine h.turn hk rfl hqueued ?_ ?_ ?_ (hdown.frame rfl rfl rfl rfl)
      · intro e he
        rw [hcontents, List.mem_append, List.mem_singleton] at he
        rcases he with he | rfl
        · exact .inl he
        · exact .inr rfl
      · intro j hj
        rw [hcontents, lane_append, lane_cons_other (Ne.symm hj), lane_nil, List.append_nil]
      · rw [hcontents, lane_append, lane_cons_self, lane_nil, ← List.append_assoc]
        exact hagain
    rw [setLine, setSession] at hinv
    simp only [hline] at hinv
    exact hinv
  · rw [Session.drainBody_leave (post k) hup.spans _ hw] at hpass
    cases hpass
    cases hs
    have hinv := h.turn_line hk rfl (hup.leave hw) (hdown.frame rfl rfl rfl rfl)
    rw [setSession_self] at hinv
    refine ⟨?_, rfl, rfl⟩
    simp only [hup.good, decide_false, Bool.not_false, if_true]
    exact hinv

/-- **One step.** -/
theorem step_inv (hw : ∀ k < Config.kMaxSession,
      (w.sessionPool.cells k).state = SessionState.kConnected.toNat → Relaying w k)
    (h : Inv w told s) {e : Event} (he : s.Legit e) (hs : s.step e = some s') :
    ∃ told', Inv w told' s' ∧ (s.Roomy e → Complete told s → Complete told' s') := by
  cases e with
  | client k e =>
    obtain ⟨hk, htalk, hsay⟩ := he
    obtain ⟨talk, ht, hs⟩ := Option.bind_eq_some_iff.mp hs
    cases hs
    obtain ⟨hup, hdown⟩ := Line.client (h.up k hk) (h.down k hk) htalk (fun memory e => by
      subst e
      exact hsay) ht
    have hinv := h.turn_line hk rfl hup hdown
    rw [setSession_self] at hinv
    exact ⟨told, hinv, fun _ hc => hc⟩
  | arrive k data =>
    obtain ⟨hk, -, hsent, hlen⟩ := he
    rw [step, rd_of_lt hk.1, Option.bind_eq_bind, Option.bind_some] at hs
    split at hs
    swap
    · cases hs
    rename_i wsaBuf hrecv
    obtain ⟨buffer, hwrite, hup⟩ := (h.up k hk).arrive hrecv
      (hlen wsaBuf (by rw [hrecv]; rfl)) hsent
    simp only [hwrite, Option.bind_eq_bind, Option.bind_some] at hs
    cases hs
    exact ⟨told, h.turn_line hk rfl hup ((h.down k hk).frame rfl rfl rfl rfl), fun _ hc => hc⟩
  | pass k =>
    obtain ⟨hinv, hpool, hexecuted⟩ := pass_inv h he hs
    refine ⟨told, hinv, fun _ hc j hj => ?_⟩
    rw [spoken, hexecuted, hpool]
    exact hc j ⟨hj.1, hpool ▸ hj.2⟩
  | repost k =>
    have hk : s.Connected k := he
    rw [step, rd_of_lt hk.1, Option.bind_eq_bind, Option.bind_some] at hs
    split at hs
    swap
    · cases hs
    rename_i hrecv
    obtain ⟨wsaBuf, hio, hup⟩ := (h.up k hk).repost hrecv
      (s.server.getSession (s.server.sessions k).handle).join
    obtain ⟨hhandle, hov, his⟩ := Session.registerRecv_frame
      { s.server.sessions k with recvOv := (s.server.sessions k).recvOv.wrap }
      (s.server.getSession (s.server.sessions k).handle).join true
    dsimp only at hs
    rw [hio] at hs
    cases hs
    exact ⟨told, h.turn_line hk hhandle hup ((h.down k hk).frame hov his rfl rfl), fun _ hc => hc⟩
  | work => exact work_inv hw h hs
  | complete k n =>
    obtain ⟨hk, hsending, -, hn⟩ := he
    rw [step, rd_of_lt hk.1, Option.bind_eq_bind, Option.bind_some] at hs
    obtain ⟨data, r, hread, hr, hdown⟩ := (h.down k hk).complete hsending hn
      (s.server.getSession (s.server.sessions k).handle).join
    have hframe := Session.onSend_frame hr
    simp only [hread, hr, Option.bind_eq_bind, Option.bind_some] at hs
    cases hs
    refine ⟨told, h.turn_line hk ?_ ((h.up k hk).frame ?_ _) hdown, fun _ hc => hc⟩ <;> rw [hframe]

/-! ### Runs -/

/-- A connection whose client has read its welcome, and has said nothing yet. -/
structure Fresh (line : Line) (session : Session) : Prop where
  client : ∃ buffer, line.talk = Talk.start buffer
  arrived : line.arrived = []
  completed : line.completed = []
  recv : ∃ w, line.recv = .posted w ∧ Ready session.recvOv w
  read : session.recvOv.window = []
  idle : session.isSending = false
  sent : session.sendOv.window = []

/-- A server in a state it can be in, with no packet out, and all connections fresh. -/
structure Opening (s : Chatroom) : Prop where
  reached : Reached s.packets s.server
  free : s.packets.free.card = Config.kMaxPacketCount
  tasks : s.tasks = []
  executed : s.executed = []
  lines : ∀ k, s.Connected k → Fresh (s.lines k) (s.server.sessions k)

theorem Opening.relaying (h : s.Opening) : ∀ k < Config.kMaxSession,
    (s.server.sessionPool.cells k).state = SessionState.kConnected.toNat → Relaying s.server k :=
  fun _ hk hc => h.reached.relaying hk hc

theorem Opening.handed (h : s.Opening) (k : Nat) : s.handed k = [] := by
  rw [Chatroom.handed, h.executed, h.tasks]
  rfl

theorem Opening.inv (h : s.Opening) :
    Inv s.server (fun _ => []) s ∧ Complete (fun _ => []) s := by
  have hspoken : ∀ k, s.spoken k = [] := by
    intro k
    rw [spoken, h.executed]
    rfl
  refine ⟨⟨⟨rfl, rfl, fun _ => rfl⟩, ⟨h.reached.rep, ?_, ?_, ?_⟩, ?_, fun k hk => ?_, fun k hk => ?_,
    fun k _ => List.nil_sublist _⟩, fun k _ => (hspoken k).symm⟩
  · rw [h.tasks]
    exact List.forall_mem_nil _
  · rw [h.tasks]
    exact List.nodup_nil
  · rw [h.tasks, List.length_nil, Nat.add_zero]
    exact h.free
  · rw [h.executed, h.tasks]
    exact List.forall_mem_nil _
  · obtain ⟨⟨buffer, htalk⟩, harrived, -, ⟨w, hrecv, hready⟩, hread, -, -⟩ := h.lines k hk
    rw [h.handed k]
    refine ⟨hready.settled.spans, ?_, List.forall_mem_nil _, ?_, ?_, ?_, fun w' hw' => ?_, fun hd => ?_,
      fun hr => ?_⟩
    · rw [harrived, hread]
      rfl
    · rw [harrived]
      exact List.nil_prefix
    · rw [htalk]
      exact List.prefix_refl _
    · rw [htalk]
      exact List.forall_mem_nil _
    · rw [hrecv] at hw'
      cases hw'
      exact hready
    · rw [hrecv] at hd
      cases hd
    · rw [hrecv] at hr
      cases hr
  · obtain ⟨⟨buffer, htalk⟩, -, hcompleted, -, -, hidle, hsent⟩ := h.lines k hk
    refine ⟨⟨(h.reached.rings k hk.1).settled, fun _ => hsent, fun hs => ?_⟩, ?_,
      List.forall_mem_nil _, ?_, ?_⟩
    · rw [hidle] at hs
      cases hs
    · rw [hcompleted, hsent]
      rfl
    · rw [htalk]
      exact Talk.start_inv buffer []
    · rw [htalk]
      exact List.nil_prefix

variable {s₀ : Chatroom} {es : List Event}

theorem run_inv (h : s₀.Opening) (r : Runs step Legit s₀ es s) :
    ∃ told, Inv s₀.server told s := by
  refine r.invariant (I := fun s => ∃ told, Inv s₀.server told s) ⟨_, h.inv.1⟩ ?_
  rintro a e b ⟨told, ha⟩ he hb
  obtain ⟨told', hb', -⟩ := step_inv h.relaying ha he hb
  exact ⟨told', hb'⟩

/-- Nothing is lost while the rings have room. -/
theorem run_complete (h : s₀.Opening)
    (r : Runs step (fun s e => s.Legit e ∧ s.Roomy e) s₀ es s) :
    ∃ told, Inv s₀.server told s ∧ Complete told s := by
  refine r.invariant (I := fun s => ∃ told, Inv s₀.server told s ∧ Complete told s) ⟨_, h.inv⟩ ?_
  rintro a e b ⟨told, ha, hc⟩ ⟨he, hroomy⟩ hb
  obtain ⟨told', hb', hc'⟩ := step_inv h.relaying ha he hb
  exact ⟨told', hb', hc' hroomy hc⟩

/-- **One order for all.**  In every run what is executed of a session is what its client has said, in
the order in which it was said, as far as it has come; every client hears of the others only what has
been executed, in the order in which it has been executed; no session is refused; and the blocks that
are out are those of the queued tasks. -/
theorem chatroom_order (h : s₀.Opening) (r : Runs step Legit s₀ es s) :
    (∀ k, s.Connected k → lane k s.executed <+: (s.lines k).talk.said) ∧
      (∀ e ∈ s.executed, s.Connected e.1) ∧
      (∀ k, s.Connected k → (s.heard k).Sublist (s.spoken k)) ∧
      (∀ k, s.Connected k → (s.lines k).recv ≠ .refused) ∧
      s.packets.free.card + s.tasks.length = Config.kMaxPacketCount := by
  obtain ⟨told, hinv⟩ := run_inv h r
  refine ⟨fun k hk => ?_, fun e he => hinv.members e (List.mem_append_left _ he), fun k hk => ?_,
    fun k hk => (hinv.up k hk).accepted, hinv.queued.card⟩
  · exact (List.prefix_append _ _).trans (hinv.up k hk).handed_front
  · exact ((hinv.down k hk).heard_front.sublist.filterMap _).trans (hinv.order k hk)

/-- Nothing is under way: all that was said has arrived and been executed, and all that was sent has
been received. -/
structure Quiet (s : Chatroom) : Prop where
  tasks : s.tasks = []
  client : ∀ k, s.Connected k →
    (s.lines k).talk.client.outgoing = none ∧ (s.lines k).talk.client.lost = false
  arrived : ∀ k, s.Connected k → (s.lines k).arrived = (s.lines k).talk.sent
  recv : ∀ k, s.Connected k → ∃ w, (s.lines k).recv = .posted w
  idle : ∀ k, s.Connected k → (s.server.sessions k).isSending = false
  received : ∀ k, s.Connected k → (s.lines k).talk.received = (s.lines k).completed

/-- **Everybody hears everything.**  In every run in which the rings have room whenever a packet is
executed, every client has heard the first of what the others have said, in the order of its execution;
and once nothing is under way everything said has been executed, and everybody has heard all of it
that is another's. -/
theorem chatroom_delivers (h : s₀.Opening)
    (r : Runs step (fun s e => s.Legit e ∧ s.Roomy e) s₀ es s) :
    (∀ k, s.Connected k → s.heard k <+: s.spoken k) ∧
      (s.Quiet → ∀ k, s.Connected k →
        lane k s.executed = (s.lines k).talk.said ∧ s.heard k = s.spoken k) := by
  obtain ⟨told, hinv, hcomplete⟩ := run_complete h r
  refine ⟨fun k hk => ?_, fun hquiet k hk => ⟨?_, ?_⟩⟩
  · rw [← hcomplete k hk]
    exact (hinv.down k hk).heard_front.filterMap _
  · have hup := hinv.up k hk
    obtain ⟨hout, hlost⟩ := hquiet.client k hk
    obtain ⟨w, hw⟩ := hquiet.recv k hk
    have hsaid := (hinv.down k hk).talk.idle hout hlost
    have hhanded : s.handed k = lane k s.executed := by
      rw [handed, hquiet.tasks]
      exact List.append_nil _
    -- two ways to cut what was said into packets
    have hparsed : Framed (s.lines k).talk.said.flatten (s.handed k)
        (s.server.sessions k).recvOv.window := by
      rw [← hsaid, ← hquiet.arrived k hk]
      exact ⟨hup.stream, hup.records, (hup.posted w hw).maximal⟩
    have hwhole : Framed (s.lines k).talk.said.flatten (s.lines k).talk.said [] :=
      ⟨(List.append_nil _).symm, fun p hp => (hup.sayable p hp).frame, fun hc => absurd hc.1 (by decide)⟩
    rw [← hhanded]
    exact (hparsed.unique readsHeader hwhole).1
  · have hdown := hinv.down k hk
    have hall : (s.lines k).talk.received = (told k).flatten := by
      rw [hquiet.received k hk, ← hdown.stream, hdown.sending.idle (hquiet.idle k hk), List.append_nil]
    rw [heard, hdown.talk.hears.all hdown.fits hall]
    exact hcomplete k hk

/-! ### A move -/

/-- The state the engine has come to, with no packet taken. -/
def lobby (e : Engine (Fin 1) Config.kMaxSession) : Chatroom where
  server := ⟨e.set, fun k => { Session.fresh with handle := (e.sessions k).handle }, e.sessionPtrs,
    ⟨[], 0⟩⟩
  packets := blank 0
  tasks := []
  lines _ := ⟨Talk.start (.filled 0), [], .posted ⟨0, 65536⟩, []⟩
  executed := []

theorem lobby_opening {e : Engine (Fin 1) Config.kMaxSession}
    (run : Runs (Engine.step 2) (fun s _ => s.Fits) (Engine.start (Fin 1) _) (twoConnected 0) e) :
    (lobby e).Opening where
  reached := ⟨⟨[], by simp, rfl⟩, ⟨1, 2, twoConnected 0, e, run, rfl, rfl, fun _ => rfl⟩,
    fun _ _ => .reset ⟨rfl, rfl, rfl⟩⟩
  free := by
    have hfree : (blank 0).free = Finset.range Config.kMaxPacketCount :=
      Finset.filter_true_of_mem fun _ _ => rfl
    show (blank 0).free.card = _
    rw [hfree, Finset.card_range]
  tasks := rfl
  executed := rfl
  lines k _ := by
    have hempty : (Session.fresh.recvOv).Empty := ⟨rfl, rfl, rfl⟩
    have hnil := hempty.window
    refine ⟨⟨_, rfl⟩, rfl, rfl, ⟨_, rfl, hempty.settled, rfl, ?_, ?_, ?_⟩, hnil, rfl, hnil⟩
    · show 65536 + Session.fresh.recvOv.window.length = _
      rw [hnil]
      rfl
    · intro hw
      exact absurd (hnil ▸ hw.1 : kHeaderSize ≤ ([] : List Byte).length) (by decide)
    · intro hb
      exact absurd (hnil ▸ hb.1 : kHeaderSize ≤ ([] : List Byte).length) (by decide)

/-- The client in the first slot makes a move, and that in the last slot hears of it. -/
def move : List Event :=
  let packet : List Byte := [12, 0, 1, 0, 1, 2, 3, 4, 5, 6, 7, 8]
  [.client 0 (.sendPacket packet), .client 0 (.sent (some 12)), .arrive 0 packet, .pass 0, .pass 0,
    .repost 0, .work, .complete 4095 20, .client 4095 (.recv (some [20, 0, 1, 0])),
    .client 4095 (.recv (some [0, 0, 0, 0, 0, 0, 0, 0, 1, 2, 3, 4, 5, 6, 7, 8]))]

theorem move_run : ∃ s₀ s : Chatroom, s₀.Opening ∧
    Runs step (fun s e => s.Legit e ∧ s.Roomy e) s₀ move s ∧
    s.Connected 4095 ∧ s.heard 4095 = [.move 0 [1, 2, 3, 4] [5, 6, 7, 8]] := by
  have hexec : (execIf (fun s _ => decide s.Fits) (Engine.step 2)
      (Engine.start (Fin 1) Config.kMaxSession) (twoConnected 0)).bind (fun e =>
        (execIf (fun (s : Chatroom) (e : Event) => decide (s.Legit e ∧
            ∀ k ∈ ([0, 4095] : List Nat), (s.server.sessions k).HasRoom Config.kMaxPacketSize)) step
          (lobby e) move).map fun s => (e.set.getIndicesInState 2, s.heard 4095)) =
      some (some [4095, 0], [.move 0 [1, 2, 3, 4] [5, 6, 7, 8]]) := by
    decide +kernel
  obtain ⟨e, he, hexec⟩ := Option.bind_eq_some_iff.mp hexec
  obtain ⟨s, hs, hobserve⟩ := Option.map_eq_some_iff.mp hexec
  obtain ⟨hlisted, hheard⟩ := Prod.mk.inj hobserve
  have run : Runs (Engine.step 2) (fun s _ => s.Fits) (Engine.start (Fin 1) _) (twoConnected 0) e :=
    Runs.of_execIf (I := fun _ => True) (fun _ _ _ h => of_decide_eq_true h)
      (fun _ _ _ _ _ _ => trivial) trivial he
  have hopening := lobby_opening run
  -- nobody else is connected
  have hlt : Config.kMaxSession < 2 ^ 32 := by decide
  have hrep := (Engine.run_good hlt (fun _ _ hfits => hfits) run).rep
  obtain ⟨l, hl, -, hmem⟩ := SparseSet.getIndicesInState_spec hrep hlt
    (show SessionState.kConnected.toNat < SessionState.kCnt.toNat by decide)
  obtain rfl := Option.some.inj (hl.symm.trans hlisted)
  have htwo : ∀ k, k < Config.kMaxSession →
      (e.set.cells k).state = SessionState.kConnected.toNat → k ∈ [0, 4095] := by
    intro k hk hc
    have hin := (hmem _).mpr ⟨k, hk, hc, rfl⟩
    rw [← hrep.slotIndex_handle hlt hk]
    rcases List.mem_pair.mp hin with hh | hh
    · rw [hh]
      decide
    · rw [hh]
      decide
  have hconnected : ∀ a told, Inv (lobby e).server told a → ∀ k, a.Connected k → k ∈ [0, 4095] := by
    rintro a told ha k ⟨hk, hc⟩
    rw [ha.seated.pool] at hc
    exact htwo k hk hc
  have hrun : Runs step (fun s e => s.Legit e ∧ s.Roomy e) (lobby e) move s := by
    refine Runs.of_execIf (I := fun a => ∃ told, Inv (lobby e).server told a) ?_ ?_
      ⟨_, hopening.inv.1⟩ hs
    · rintro a ev ⟨told, ha⟩ hallow
      obtain ⟨hl, hroom⟩ := of_decide_eq_true hallow
      refine ⟨hl, ?_⟩
      cases ev with
      | work => exact fun k hk => hroom k (hconnected a told ha k hk)
      | _ => trivial
    · rintro a ev b ⟨told, ha⟩ hallow hb
      obtain ⟨told', hb', -⟩ := step_inv hopening.relaying ha (of_decide_eq_true hallow).1 hb
      exact ⟨told', hb'⟩
  obtain ⟨told, hinv⟩ := run_inv hopening (hrun.mono fun _ _ h => h.1)
  obtain ⟨k, hk, hc, hhandle⟩ := (hmem 4095).mp List.mem_cons_self
  have hlast : slotIndex 4095 = k := by
    rw [hhandle]
    exact hrep.slotIndex_handle hlt hk
  obtain rfl : k = 4095 := hlast.symm.trans (by decide)
  exact ⟨lobby e, s, hopening, hrun, ⟨hk, hinv.seated.pool.symm ▸ hc⟩, hheard⟩

/-- The others hear of the move. -/
theorem chatroom_order_move : ∃ s₀ s : Chatroom, s₀.Opening ∧ Runs step Legit s₀ move s ∧
    s.heard 4095 = [.move 0 [1, 2, 3, 4] [5, 6, 7, 8]] ∧ (s.heard 4095).Sublist (s.spoken 4095) := by
  obtain ⟨s₀, s, h, r, hc, hheard⟩ := move_run
  have r' : Runs step Legit s₀ move s := r.mono fun _ _ h => h.1
  obtain ⟨-, -, horder, -⟩ := chatroom_order h r'
  exact ⟨s₀, s, h, r', hheard, horder 4095 hc⟩

/-- Nothing is lost of it. -/
theorem chatroom_delivers_move : ∃ s₀ s : Chatroom, s₀.Opening ∧
    Runs step (fun s e => s.Legit e ∧ s.Roomy e) s₀ move s ∧
    s.heard 4095 = [.move 0 [1, 2, 3, 4] [5, 6, 7, 8]] ∧ s.heard 4095 <+: s.spoken 4095 := by
  obtain ⟨s₀, s, h, r, hc, hheard⟩ := move_run
  exact ⟨s₀, s, h, r, hheard, (chatroom_delivers h r).1 4095 hc⟩

end Chatroom

end IocpServer
