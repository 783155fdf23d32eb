import IocpServer.Packet.Broadcast

/-!
# Packet — Relay

Moves and chats from the bytes a client sends to the bytes the other clients are sent.

* `Relayed.decode_move`, `Relayed.decode_chat`: what is sent says what was received.
* `execute_relays`: `Execute` relays a packet that keeps inside the pool, with two blocks free.
* `execute_needs`: and it returns only then.
-/

namespace IocpServer

/-- What a move or a chat tells: whose it is, and the bytes of the coordinates or the message. -/
inductive Relayed where
  | move (sessionHandle : Nat) (x y : List Byte)
  | chat (sessionHandle : Nat) (message : List Byte)
  deriving DecidableEq, Repr

namespace Relayed

/-- The bytes of a packet read as `S2C_MOVE` or `S2C_CHAT`, by its id.  Its size has to be the
number of its bytes. -/
def decode (packet : List Byte) : Option Relayed :=
  if headerSize packet ≠ packet.length then none
  else do
    let sessionHandle ← readAt packet 4 8
    if headerId packet = PacketId.kMove.toNat ∧ headerSize packet = 20 then
      return .move (leNat sessionHandle) (← readAt packet 12 4) (← readAt packet 16 4)
    else if headerId packet = PacketId.kChat.toNat then
      return .chat (leNat sessionHandle) (← readAt packet 12 (headerSize packet - 12))
    else none

/-- What the session with this handle says by the `C2S_MOVE` or `C2S_CHAT` it has sent. -/
def said (sessionHandle : Nat) (packet : List Byte) : Option Relayed :=
  if headerId packet = PacketId.kMove.toNat then do
    return .move sessionHandle (← readAt packet 4 4) (← readAt packet 8 4)
  else if headerId packet = PacketId.kChat.toNat then do
    return .chat sessionHandle (← readAt packet kHeaderSize (headerSize packet - kHeaderSize))
  else none

/-- The fields of a packet that begins with a size, an id and a handle. -/
theorem fields {size id : Nat} (hsize : size < 2 ^ 16) (hid : id < 2 ^ 16) (sessionHandle : Nat)
    (rest : List Byte) :
    headerSize (leBytes 2 size ++ (leBytes 2 id ++ (leBytes 8 sessionHandle ++ rest))) = size ∧
    headerId (leBytes 2 size ++ (leBytes 2 id ++ (leBytes 8 sessionHandle ++ rest))) = id ∧
    ∀ a len, a + len ≤ 8 + rest.length →
      readAt (leBytes 2 size ++ (leBytes 2 id ++ (leBytes 8 sessionHandle ++ rest))) (4 + a) len =
        some (Slice.fetch a len (leBytes 8 sessionHandle ++ rest)) := by
  have h₂ : (leBytes 2 size).length = 2 := leBytes_length 2 size
  have h₂' : (leBytes 2 id).length = 2 := leBytes_length 2 id
  refine ⟨headerSize_leBytes hsize _, ?_, fun a len hle => ?_⟩
  · rw [headerId, List.drop_left' h₂, List.take_left' h₂', leNat_leBytes 2 hid]
  · rw [readAt_of_le (by simp only [List.length_append, leBytes_length]; omega), Slice.fetch,
      Slice.fetch, ← List.drop_drop, ← List.append_assoc, List.drop_left' (by
        rw [List.length_append, h₂, h₂'])]

variable {sessionHandle : Nat}

theorem decode_move (hh : sessionHandle < 2 ^ 64) {x y : List Byte} (hx : x.length = 4)
    (hy : y.length = 4) :
    (moveBytes sessionHandle (x ++ y)).length = 20 ∧
      decode (moveBytes sessionHandle (x ++ y)) = some (.move sessionHandle x y) := by
  have hlen : (moveBytes sessionHandle (x ++ y)).length = 20 := by
    simp only [moveBytes, List.length_append, leBytes_length, hx, hy]
  have h₈ : (leBytes 8 sessionHandle).length = 8 := leBytes_length 8 sessionHandle
  obtain ⟨hsize, hid, hread⟩ := fields (show 20 < 2 ^ 16 by decide)
    (show PacketId.kMove.toNat < 2 ^ 16 by decide) sessionHandle (x ++ y)
  rw [← moveBytes] at hsize hid hread
  have hxy : 8 + (x ++ y).length = 16 := by rw [List.length_append, hx, hy]
  have r₁ : readAt (moveBytes sessionHandle (x ++ y)) 4 8 = some (leBytes 8 sessionHandle) := by
    rw [hread 0 8 (by omega), Slice.fetch_zero, List.take_left' h₈]
  have r₂ : readAt (moveBytes sessionHandle (x ++ y)) 12 4 = some x := by
    rw [hread 8 4 (by omega), Slice.fetch, List.drop_left' h₈, List.take_left' hx]
  have r₃ : readAt (moveBytes sessionHandle (x ++ y)) 16 4 = some y := by
    rw [hread 12 4 (by omega), Slice.fetch, ← List.append_assoc, List.drop_left' (by
      rw [List.length_append, h₈, hx]), List.take_of_length_le hy.le]
  refine ⟨hlen, ?_⟩
  simp only [decode, hsize, hid, hlen, r₁, r₂, r₃, leNat_leBytes 8 hh, ne_eq, not_true_eq_false,
    if_false, and_self, if_true, Option.bind_eq_bind, Option.bind_some]
  rfl

theorem decode_chat (hh : sessionHandle < 2 ^ 64) {message : List Byte}
    (hfit : 12 + message.length < 2 ^ 16) :
    (chatBytes sessionHandle message).length = 12 + message.length ∧
      decode (chatBytes sessionHandle message) = some (.chat sessionHandle message) := by
  have hlen : (chatBytes sessionHandle message).length = 12 + message.length := by
    simp only [chatBytes, List.length_append, leBytes_length]
    omega
  have h₈ : (leBytes 8 sessionHandle).length = 8 := leBytes_length 8 sessionHandle
  obtain ⟨hsize, hid, hread⟩ := fields hfit
    (show PacketId.kChat.toNat < 2 ^ 16 by decide) sessionHandle message
  rw [← chatBytes] at hsize hid hread
  have r₁ : readAt (chatBytes sessionHandle message) 4 8 = some (leBytes 8 sessionHandle) := by
    rw [hread 0 8 (by omega), Slice.fetch_zero, List.take_left' h₈]
  have r₂ : readAt (chatBytes sessionHandle message) 12 message.length = some message := by
    rw [hread 8 message.length le_rfl, Slice.fetch, List.drop_left' h₈, List.take_length]
  have hne : ¬ (PacketId.kChat.toNat = PacketId.kMove.toNat ∧ 12 + message.length = 20) := by
    intro h
    exact absurd h.1 (by decide)
  have hrest : 12 + message.length - 12 = message.length := by omega
  refine ⟨hlen, ?_⟩
  simp only [decode, hsize, hid, hlen, hrest, r₁, r₂, leNat_leBytes 8 hh, ne_eq, not_true_eq_false,
    if_false, if_neg hne, if_true, Option.bind_eq_bind, Option.bind_some]
  rfl

end Relayed

/-! ### The other sessions -/

namespace Server

/-- From `w` to `w'` the bytes `b` are appended for every connected session but that of the slot
`self` whose ring has room for them, and no other session is changed. -/
def Relays (w : Server) (self : Nat) (b : List Byte) (w' : Server) : Prop :=
  ∀ k < Config.kMaxSession,
    if (w.sessionPool.cells k).state = SessionState.kConnected.toNat ∧ k ≠ self ∧
        (w.sessions k).HasRoom b.length then
      (w'.sessions k).sendOv.window = (w.sessions k).sendOv.window ++ b
    else w'.sessions k = w.sessions k

/-- The connected sessions can be found. -/
structure Listed (w : Server) : Prop where
  rep : w.sessionPool.Rep
  linked : ∀ k < Config.kMaxSession,
    (w.sessionPool.cells k).state = SessionState.kConnected.toNat → w.Linked k

theorem broadcast_relays {queued : Nat → Bool} {w : Server} (h : w.Listed) {self : Nat}
    (hself : self < Config.kMaxSession) {memory b : List Byte} (hc : Carries memory b) :
    ∃ w', w.broadcast queued (w.sessionPool.handle self) memory = some w' ∧ w.Relays self b w' := by
  obtain ⟨hsize, htake⟩ := hc
  have hmem : headerSize memory ≤ memory.length := by
    rw [hsize, ← htake, List.length_take]
    exact Nat.min_le_right ..
  obtain ⟨ks, w', hw', ho, hks⟩ : ∃ ks w',
      w.broadcast queued (w.sessionPool.handle self) memory = some w' ∧ Offered ks memory w w' ∧
        ∀ j, j ∈ ks ↔ j < Config.kMaxSession ∧
          (w.sessionPool.cells j).state = SessionState.kConnected.toNat ∧ j ≠ self :=
    broadcast_offers h.rep hself h.linked hmem
  refine ⟨w', hw', fun k hk => ?_⟩
  split_ifs with hcond
  · obtain ⟨hstate, hne, hroom⟩ := hcond
    rw [ho.appended k ((hks k).mpr ⟨hk, hstate, hne⟩) (hsize ▸ hroom), hsize, htake]
  · by_cases hin : k ∈ ks
    · obtain ⟨-, hstate, hne⟩ := (hks k).mp hin
      exact ho.full k hin fun hroom => hcond ⟨hstate, hne, hsize ▸ hroom⟩
    · exact ho.other k hin

end Server

/-! ### `Execute` -/

theorem readAt_append {p : List Byte} {off len : Nat} (h : off + len ≤ p.length)
    (rest : List Byte) : readAt (p ++ rest) off len = readAt p off len := by
  rw [readAt_of_le h, readAt_of_le (h.trans (by simp)), Slice.fetch_append_left h]

/-- A move with its coordinates, or a chat that its reply is no longer than a block for. -/
structure Relayable (packet : List Byte) : Prop where
  frame : kHeaderSize ≤ packet.length ∧ headerSize packet = packet.length
  kind : headerId packet = PacketId.kMove.toNat ∧ 12 ≤ headerSize packet ∨
    headerId packet = PacketId.kChat.toNat ∧ headerSize packet ≤ Config.kMaxPacketSize - 8

namespace PacketHandler

open PacketPool

variable {queued : Nat → Bool} {q q' : PacketPool} {w w' : Server} {self : Nat}
  {packet : List Byte}

/-- What lies behind a packet is not read. -/
theorem execute_append (hf : kHeaderSize ≤ packet.length ∧ headerSize packet = packet.length)
    (rest : List Byte) : execute queued q w self (packet ++ rest) = execute queued q w self packet := by
  have hcopy : ∀ q slot, copyPacket q slot (packet ++ rest) = copyPacket q slot packet := by
    intro q slot
    have hread : 0 + headerSize packet ≤ packet.length := by
      rw [Nat.zero_add]
      exact hf.2.le
    rw [copyPacket, copyPacket, headerSize_append rest hf.1, readAt_append hread]
  simp only [execute, headerId_append rest hf.1, hcopy]

/-- What `HandleMove` and `HandleChat` do: a reply is filled in for the session's handle and
broadcast. -/
def relay (queued : Nat → Bool) (fillIn : Nat → PacketBlock → Option PacketBlock) (q : PacketPool)
    (w : Server) (self : Nat) : Option (PacketPool × Server) :=
  withPacket q fun q slot => do
    let session ← rd Config.kMaxSession w.sessions self
    let (q, packet) ← fill q slot (fillIn session.handle)
    let w ← w.broadcast queued session.handle packet
    return (q, w)

theorem handleMove_eq (q : PacketPool) (w : Server) (self : Nat) (header : List Byte) :
    handleMove queued q w self header = relay queued (fun h b => movePacket b h header) q w self :=
  rfl

theorem handleChat_eq (q : PacketPool) (w : Server) (self : Nat) (header : List Byte) :
    handleChat queued q w self header = relay queued (fun h b => chatPacket b h header) q w self :=
  rfl

/-- The sender is known by its handle, and the others can be found. -/
structure Relaying (w : Server) (slot : Nat) : Prop where
  listed : w.Listed
  inRange : slot < Config.kMaxSession
  handle : (w.sessions slot).handle = w.sessionPool.handle slot
  bound : (w.sessions slot).handle < 2 ^ 64

theorem relay_some {fillIn : Nat → PacketBlock → Option PacketBlock} {b : List Byte}
    (hroom : Room 1 q) (h : Relaying w self)
    (hfill : ∀ c, ∃ d, fillIn (w.sessions self).handle c = some d ∧ Carries d.bytes b) :
    ∃ q' w', relay queued fillIn q w self = some (q', w') ∧ q'.set.Rep ∧ w.Relays self b w' := by
  refine withPacket_some hroom fun q₁ slot hslot hroom _ _ => ?_
  obtain ⟨d, hd, hcarries⟩ := hfill (q₁.obj slot)
  obtain ⟨w', hw', hrelays⟩ : ∃ w', w.broadcast queued (w.sessions self).handle d.bytes = some w' ∧
      w.Relays self b w' := by
    rw [h.handle]
    exact Server.broadcast_relays h.listed h.inRange hcarries
  have hfilled : fill q₁ slot (fillIn (w.sessions self).handle) = _ := fill_some hslot hd
  refine ⟨{ q₁ with obj := upd q₁.obj slot d }, w', ?_, hroom.rep, hrelays⟩
  simp -implicitDefEqProofs only [rd_of_lt h.inRange, hfilled, hw', Option.bind_eq_bind,
    Option.bind_some]
  rfl

/-- **`Execute` relays** a move or a chat that keeps inside the pool, if two blocks are free. -/
theorem execute_relays (hp : Relayable packet) (hfit : ∀ slot, q.Next slot →
      slot * kSlotSize + headerSize packet ≤ Config.kMaxPacketCount * kSlotSize)
    (hroom : Room 2 q) (h : Relaying w self) :
    ∃ q' w' b m, execute queued q w self packet = some (q', w') ∧ Relayed.decode b = some m ∧
      Relayed.said (w.sessions self).handle packet = some m ∧ w.Relays self b w' := by
  have hframe := hp.frame
  have h4 : 4 ≤ packet.length := hframe.1
  rcases hp.kind with ⟨hid, hsize⟩ | ⟨hid, hsize⟩
  · have hx : (Slice.fetch 4 4 packet).length = 4 := Slice.fetch_length (by omega)
    have hy : (Slice.fetch 8 4 packet).length = 4 := Slice.fetch_length (by omega)
    obtain ⟨-, hdecode⟩ := Relayed.decode_move h.bound hx hy
    have hsaid : Relayed.said (w.sessions self).handle packet = some (.move (w.sessions self).handle
        (Slice.fetch 4 4 packet) (Slice.fetch 8 4 packet)) := by
      simp only [Relayed.said, hid, if_true, readAt_of_le (show 4 + 4 ≤ packet.length by omega),
        readAt_of_le (show 8 + 4 ≤ packet.length by omega), Option.bind_eq_bind, Option.bind_some]
      rfl
    have hhandler : handlers queued (headerId packet) = some (handleMove queued) := by
      rw [hid]
      rfl
    have hserved : ∃ q' w', execute queued q w self packet = some (q', w') ∧ q'.set.Rep ∧
        w.Relays self (moveBytes (w.sessions self).handle
          (Slice.fetch 4 4 packet ++ Slice.fetch 8 4 packet)) w' := by
      refine execute_returns hroom hframe hfit (hid ▸ by decide) hhandler fun q₁ slot hroom => ?_
      rw [handleMove_eq]
      refine relay_some hroom h fun c => ?_
      generalize (q.obj slot).bytes.drop packet.length = behind
      -- the coordinates are in the block, whatever of the packet lies behind it
      have hk : Config.kMaxPacketSize = 1024 := rfl
      have hkept : 12 ≤ (packet.take Config.kMaxPacketSize).length := by
        rw [List.length_take]
        omega
      have hwhole : Slice.fetch 4 8 packet = Slice.fetch 4 8 (packet.take Config.kMaxPacketSize) := by
        conv_lhs => rw [← List.take_append_drop Config.kMaxPacketSize packet]
        exact Slice.fetch_append_left (by omega)
      have hxy : Slice.fetch 4 8 (packet.take Config.kMaxPacketSize ++ behind) =
          Slice.fetch 4 4 packet ++ Slice.fetch 8 4 packet := by
        rw [Slice.fetch_append_left (by omega), ← hwhole]
        exact Slice.fetch_add 4 4 4 packet
      rw [← hxy]
      exact movePacket_carries c _ (by rw [List.length_append]; omega)
    obtain ⟨q', w', he, -, hrelays⟩ := hserved
    exact ⟨q', w', _, _, he, hdecode, hsaid, hrelays⟩
  · have hk : Config.kMaxPacketSize = 1024 := rfl
    have hh : kHeaderSize = 4 := rfl
    have hm : (Slice.fetch kHeaderSize (headerSize packet - kHeaderSize) packet).length =
        headerSize packet - kHeaderSize := Slice.fetch_length (by omega)
    obtain ⟨-, hdecode⟩ := Relayed.decode_chat h.bound (show 12 +
      (Slice.fetch kHeaderSize (headerSize packet - kHeaderSize) packet).length < 2 ^ 16 by omega)
    have hsaid : Relayed.said (w.sessions self).handle packet = some (.chat (w.sessions self).handle
        (Slice.fetch kHeaderSize (headerSize packet - kHeaderSize) packet)) := by
      have hne : ¬ PacketId.kChat.toNat = PacketId.kMove.toNat := by decide
      simp only [Relayed.said, hid, if_neg hne, if_true, Option.bind_eq_bind, Option.bind_some,
        readAt_of_le (show kHeaderSize + (headerSize packet - kHeaderSize) ≤ packet.length by omega)]
      rfl
    have hhandler : handlers queued (headerId packet) = some (handleChat queued) := by
      rw [hid]
      rfl
    have hserved : ∃ q' w', execute queued q w self packet = some (q', w') ∧ q'.set.Rep ∧
        w.Relays self (chatBytes (w.sessions self).handle
          (Slice.fetch kHeaderSize (headerSize packet - kHeaderSize) packet)) w' := by
      refine execute_some hroom hframe (by omega) (hid ▸ by decide) hhandler fun q₁ slot hroom => ?_
      rw [handleChat_eq]
      refine relay_some hroom h fun c => ?_
      generalize (q.obj slot).bytes.drop packet.length = behind
      have hheader : headerSize (packet ++ behind) = headerSize packet :=
        headerSize_append behind hframe.1
      have hmessage : Slice.fetch kHeaderSize (headerSize (packet ++ behind) - kHeaderSize)
          (packet ++ behind) = Slice.fetch kHeaderSize (headerSize packet - kHeaderSize) packet := by
        rw [hheader, Slice.fetch_append_left (by omega)]
      rw [← hmessage]
      refine chatPacket_carries c _ ?_ ?_ ?_
      · rw [hheader, hframe.2]
        exact hframe.1
      · rw [hheader, List.length_append]
        omega
      · rw [hheader]
        omega
    obtain ⟨q', w', he, -, hrelays⟩ := hserved
    exact ⟨q', w', _, _, he, hdecode, hsaid, hrelays⟩

/-- A block that is taken was free. -/
theorem acquire_free (hrep : q.set.Rep) {handle : Nat} (h : q.acquire id 1 = some (q', some handle)) :
    q'.set.Rep ∧ q.free.card = q'.free.card + 1 := by
  rcases SparsePool.acquire_spec hrep (by decide) (by decide : 1 < 2) (by decide) id with
    ⟨slot, p, hslot, hacq, hrep', hfree, -⟩ | ⟨-, hacq⟩
  · rw [hacq] at h
    obtain rfl := (Prod.mk.inj (Option.some.inj h)).1
    refine ⟨hrep', ?_⟩
    rw [hfree, Finset.card_erase_add_one hslot]
  · rw [hacq] at h
    exact absurd (Prod.mk.inj (Option.some.inj h)).2 (by simp)

/-- **It returns only then.** -/
theorem execute_needs (hp : Relayable packet) (hrep : q.set.Rep)
    (h : execute queued q w self packet = some (q', w')) :
    2 ≤ q.free.card ∧ ∀ slot, q.Next slot →
      slot * kSlotSize + headerSize packet ≤ Config.kMaxPacketCount * kSlotSize := by
  obtain ⟨fillIn, hid, hhandler⟩ : ∃ fillIn : List Byte → Nat → PacketBlock → Option PacketBlock,
      headerId packet < PacketId.kCnt.toNat ∧ handlers queued (headerId packet) =
        some fun q w self header => relay queued (fillIn header) q w self := by
    rcases hp.kind with ⟨hid, -⟩ | ⟨hid, -⟩
    · exact ⟨fun header h b => movePacket b h header, hid ▸ by decide, by rw [hid]; rfl⟩
    · exact ⟨fun header h b => chatPacket b h header, hid ▸ by decide, by rw [hid]; rfl⟩
  rw [execute, if_neg hid.not_ge, hhandler] at h
  obtain ⟨q₁, handle, q₂, hacq, h⟩ := withPacket_elim h
  obtain ⟨hrep₁, hcard₁⟩ := acquire_free hrep hacq
  obtain ⟨⟨q₃, memory⟩, hcopy, h⟩ := Option.bind_eq_some_iff.mp h
  obtain ⟨q₄, handle', q₅, hacq', -⟩ := withPacket_elim h
  -- the copy has filled a block, and left as many free
  obtain ⟨hset, hfit⟩ := copyPacket_elim hcopy
  obtain ⟨-, hcard₃⟩ := acquire_free (hset ▸ hrep₁) hacq'
  have hfree : q₃.free = q₁.free := by
    simp only [SparsePool.free, hset]
  rw [hfree] at hcard₃
  refine ⟨by omega, ?_⟩
  rintro slot ⟨p, handle', hacq', rfl⟩
  rw [hacq] at hacq'
  cases hacq'
  exact hfit

end PacketHandler

end IocpServer
