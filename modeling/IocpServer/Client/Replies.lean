import IocpServer.Client.Client
import IocpServer.Packet.Accounts
import IocpServer.Packet.Blocks

/-!
# Client — Replies

What one call of `Execute` puts into the ring of every session, for whatever packet: a move or a chat
goes to the others, and everything else is answered to the session it is from, or dropped.

* `Session.Sending`: the `WSASend` of a session and its ring.
* `Effect.sending`: `Execute` keeps it.
* `execute_tells`: the packets that come into a ring, and what they say.
-/

namespace IocpServer

namespace Session

variable {s : Session} {r : Registered} {ptr : Option Nat} {queued : Bool}

/-- While the session is sending, its `WSASend` is outstanding on a first part of the window. -/
structure Sending (s : Session) : Prop where
  settled : s.sendOv.Settled
  idle : s.isSending = false → s.sendOv.window = []
  busy : s.isSending = true → s.sendOv.wsaBuf.buf = s.sendOv.recvPos ∧
    s.sendOv.wsaBuf.len ≤ s.sendOv.window.length

theorem registerSend_wsaBuf (h : s.registerSend ptr queued = some r) :
    r.io = some r.session.sendOv.wsaBuf := by
  rw [registerSend] at h
  split at h
  · cases h
    rfl
  · cases h

/-- `SendPacket` posts its `wsaBuf_`, or leaves it alone. -/
theorem sendPacket_wsaBuf {header : List Byte} (h : s.sendPacket header ptr queued = some r) :
    r.io = some r.session.sendOv.wsaBuf ∨
      r.io = none ∧ r.session.sendOv.wsaBuf = s.sendOv.wsaBuf := by
  simp only [sendPacket] at h
  split at h
  · cases h
    exact .inr ⟨rfl, rfl⟩
  · split at h
    · cases h
    · obtain ⟨buffer, -, h⟩ := Option.bind_eq_some_iff.mp h
      split at h
      · cases h
        exact .inr ⟨rfl, rfl⟩
      · exact .inl (registerSend_wsaBuf h)

theorem onSend_wsaBuf {n : Nat} (h : s.onSend n ptr queued = some r) :
    r.io = some r.session.sendOv.wsaBuf ∨ r.io = none := by
  rw [onSend] at h
  split at h
  · dsimp only at h
    split at h
    · cases h
      exact .inr rfl
    · exact .inl (registerSend_wsaBuf h)
  · cases h

/-- `OnSend` changes the sending side only. -/
theorem onSend_frame {n : Nat} (h : s.onSend n ptr queued = some r) :
    r.session = { s with sendOv := r.session.sendOv, isSending := r.session.isSending } := by
  rw [onSend] at h
  split at h
  · dsimp only at h
    split at h
    · cases h
      rfl
    · have hsend := registerSend_frame h
      rw [hsend]
  · cases h

/-- `RegisterRecv` changes the receiving side only. -/
theorem registerRecv_frame (s : Session) (ptr : Option Nat) (queued : Bool) :
    (s.registerRecv ptr queued).session.handle = s.handle ∧
      (s.registerRecv ptr queued).session.sendOv = s.sendOv ∧
      (s.registerRecv ptr queued).session.isSending = s.isSending := by
  by_cases hlen : u32 (u64 (sub64 s.recvOv.buffer.size s.recvOv.sendPos + s.recvOv.recvPos)) = 0
  · simp only [registerRecv, if_pos hlen, and_self]
  · simp only [registerRecv, if_neg hlen, and_self]

/-- A call of `SendPacket`. -/
theorem Sending.sendPacket (h : s.Sending) {header : List Byte}
    (hr : s.sendPacket header ptr true = some r) : r.session.Sending := by
  by_cases hroom : s.sendOv.window.length + headerSize header ≤ s.sendOv.buffer.size
  swap
  · rw [sendPacket_reject h.settled (not_le.mp hroom)] at hr
    cases hr
    exact h
  by_cases hmem : headerSize header ≤ header.length
  · have hbuf := sendPacket_wsaBuf hr
    obtain ⟨r', hr', -, hsending, hset, hpos, hwin, hio⟩ :=
      sendPacket_accept h.settled hroom hmem ptr true
    obtain rfl := Option.some.inj (hr'.symm.trans hr)
    refine ⟨hset, fun hf => absurd (hsending.symm.trans hf) Bool.noConfusion, fun _ => ?_⟩
    rcases hbuf with hposted | ⟨hnone, hsame⟩
    · rw [hposted] at hio
      split at hio
      · cases hio
      · rw [Option.some.inj hio]
        exact ⟨rfl, le_rfl⟩
    · rw [hnone] at hio
      split at hio
      · rename_i hs
        obtain ⟨hbuf, hlen⟩ := h.busy hs
        rw [hsame, hpos, hwin, List.length_append]
        exact ⟨hbuf, hlen.trans (Nat.le_add_right ..)⟩
      · cases hio
  · -- a packet that does not lie in its memory is a fault
    have hn : s.sendOv.buffer.size = 65536 := h.settled.size
    have hfits := h.settled.fits
    have hsum : ¬ s.sendOv.buffer.size < u64 (s.sendOv.available + headerSize header) := by
      rw [h.settled.spans.available, u64_of_lt (by omega)]
      omega
    simp only [Session.sendPacket, if_neg hsum, if_pos (not_le.mp hmem)] at hr
    cases hr

/-- A call of `OnSend`. -/
theorem Sending.onSend (h : s.Sending) (hs : s.isSending = true) {n : Nat}
    (hn : n ≤ s.sendOv.window.length) (ptr : Option Nat) :
    ∃ r, s.onSend n ptr true = some r ∧ r.session.Sending ∧
      r.session.sendOv.window = s.sendOv.window.drop n := by
  obtain ⟨r, hr, hset, hwin, hidle, hio⟩ := onSend_spec h.settled hs hn ptr true
  refine ⟨r, hr, ⟨hset, hidle, fun hsending => ?_⟩, hwin⟩
  rw [if_pos hsending] at hio
  rcases onSend_wsaBuf hr with hposted | hnone
  · rw [hposted] at hio
    rw [Option.some.inj hio]
    exact ⟨rfl, le_rfl⟩
  · rw [hnone] at hio
    cases hio

end Session

namespace Server

variable {w w' : Server} {k : Nat}

/-- What handlers do leaves every session sending as it should, and its receiving side alone. -/
theorem Effect.sending (h : Effect (fun _ => true) w w') (hk : (w.sessions k).Sending) :
    (w'.sessions k).Sending ∧ (w'.sessions k).recvOv = (w.sessions k).recvOv := by
  refine h.keeps (I := fun a => (a.sessions k).Sending ∧
    (a.sessions k).recvOv = (w.sessions k).recvOv) ?_ ?_ ?_ ⟨hk, rfl⟩
  · rintro a b slot header ⟨ha, hrecv⟩ hs
    obtain ⟨-, r, hr, rfl⟩ := sendPacket_elim hs
    by_cases hks : k = slot
    · subst hks
      have hframe := Session.sendPacket_frame hr
      simp only [upd_same]
      refine ⟨ha.sendPacket hr, ?_⟩
      rw [hframe]
      exact hrecv
    · simp only [upd_other hks]
      exact ⟨ha, hrecv⟩
  · rintro a b handle ⟨ha, hrecv⟩ hs
    obtain ⟨held, -, rfl⟩ := setAccountId_elim hs
    by_cases hks : k = slotIndex held
    · subst hks
      simp only [upd_same]
      exact ⟨⟨ha.settled, ha.idle, ha.busy⟩, hrecv⟩
    · simp only [upd_other hks]
      exact ⟨ha, hrecv⟩
  · intro a ha accounts
    exact ha

end Server

/-! ### What is told -/

/-- A packet a client may send: it is as long as it says, and a move brings its coordinates. -/
structure Sayable (packet : List Byte) : Prop where
  frame : kHeaderSize ≤ packet.length ∧ headerSize packet = packet.length
  move : headerId packet = PacketId.kMove.toNat → 12 ≤ headerSize packet

instance : DecidablePred Sayable := fun packet =>
  decidable_of_iff ((kHeaderSize ≤ packet.length ∧ headerSize packet = packet.length) ∧
    (headerId packet = PacketId.kMove.toNat → 12 ≤ headerSize packet))
    ⟨fun h => ⟨h.1, h.2⟩, fun h => ⟨h.frame, h.move⟩⟩

/-- Into the ring of a session came the packets `ps`; they tell `ms`, if it had room for a block. -/
structure Tells (s s' : Session) (ms : List Relayed) (ps : List (List Byte)) : Prop where
  window : s'.sendOv.window = s.sendOv.window ++ ps.flatten
  fits : ∀ p ∈ ps, Client.Fits p
  order : (ps.filterMap Relayed.decode).Sublist ms
  all : s.HasRoom Config.kMaxPacketSize → ps.filterMap Relayed.decode = ms

theorem Tells.nothing {s s' : Session} (h : s'.sendOv = s.sendOv) : Tells s s' [] [] where
  window := by
    rw [h]
    exact (List.append_nil _).symm
  fits := List.forall_mem_nil _
  order := List.Sublist.refl _
  all _ := rfl

theorem Session.HasRoom.mono {s : Session} {n m : Nat} (h : s.HasRoom m) (hn : n ≤ m) : s.HasRoom n :=
  (Nat.add_le_add_left hn _).trans h

namespace Relayed

variable {sessionHandle : Nat} {packet b : List Byte} {m : Relayed}

/-- Other packets say nothing to the others. -/
theorem said_none (hmove : headerId packet ≠ PacketId.kMove.toNat)
    (hchat : headerId packet ≠ PacketId.kChat.toNat) : said sessionHandle packet = none := by
  rw [said, if_neg hmove, if_neg hchat]

/-- A packet that says what a packet no longer than a chat may be has said fits in a block. -/
theorem decode_fits (hd : decode b = some m) (hs : said sessionHandle packet = some m)
    (hchat : headerId packet = PacketId.kChat.toNat →
      headerSize packet ≤ Config.kMaxPacketSize - 8) : Client.Fits b := by
  have hk : Config.kMaxPacketSize = 1024 := rfl
  have hh : kHeaderSize = 4 := rfl
  rw [decode] at hd
  split at hd
  · cases hd
  rename_i hsize
  rw [not_not] at hsize
  obtain ⟨handle, hread, hd⟩ := Option.bind_eq_some_iff.mp hd
  have h12 : 4 + 8 ≤ b.length := by
    by_contra hn
    rw [readAt, if_neg hn] at hread
    cases hread
  refine ⟨by omega, hsize, ?_⟩
  split at hd
  · rename_i hmove
    omega
  split at hd
  · obtain ⟨message, hmessage, hd⟩ := Option.bind_eq_some_iff.mp hd
    cases hd
    rw [said] at hs
    split at hs
    · obtain ⟨x, -, hs⟩ := Option.bind_eq_some_iff.mp hs
      obtain ⟨y, -, hs⟩ := Option.bind_eq_some_iff.mp hs
      cases hs
    split at hs
    · rename_i hid
      obtain ⟨message', hmessage', hs⟩ := Option.bind_eq_some_iff.mp hs
      cases hs
      have hlen := hchat hid
      rw [readAt] at hmessage hmessage'
      split_ifs at hmessage hmessage' with h₁ h₂
      have e₁ : message.length = headerSize b - 12 := by
        rw [← Option.some.inj hmessage, Slice.fetch_length h₁]
      have e₂ : message.length = headerSize packet - kHeaderSize := by
        rw [← Option.some.inj hmessage', Slice.fetch_length h₂]
      omega
    · cases hs
  · cases hd

/-- A result is no move and no chat. -/
theorem decode_result {id : PacketId} (hid : id.toNat < 2 ^ 16) (hmove : id.toNat ≠ PacketId.kMove.toNat)
    (hchat : id.toNat ≠ PacketId.kChat.toNat) {message : List Byte}
    (hm : message.length + 6 ≤ Config.kMaxPacketSize) (success : Bool) :
    Client.Fits (resultBytes id message success) ∧ decode (resultBytes id message success) = none := by
  have hk : Config.kMaxPacketSize = 1024 := rfl
  have hh : kHeaderSize = 4 := rfl
  have hlen : (resultBytes id message success).length = 6 + message.length := by
    simp only [resultBytes, List.length_append, leBytes_length, List.length_cons, List.length_nil]
    omega
  have hsize : headerSize (resultBytes id message success) = 6 + message.length :=
    headerSize_leBytes (by omega) _
  have hheader : headerId (resultBytes id message success) = id.toNat := by
    rw [headerId, resultBytes, List.drop_left' (leBytes_length 2 _),
      List.take_left' (leBytes_length 2 _), leNat_leBytes 2 hid]
  refine ⟨⟨by omega, hsize.trans hlen.symm, by omega⟩, ?_⟩
  have hneither : ¬ (id.toNat = PacketId.kMove.toNat ∧
      headerSize (resultBytes id message success) = 20) := fun h => hmove h.1
  rw [decode, if_neg (by rw [hsize, hlen]; exact not_not_intro rfl)]
  simp only [hheader, if_neg hneither, if_neg hchat]
  exact Option.bind_eq_none_iff.mpr fun _ _ => rfl

end Relayed

namespace PacketHandler

open PacketPool

variable {queued : Nat → Bool} {q q' : PacketPool} {w w' : Server} {self k : Nat}
  {packet memory : List Byte}

/-- The packet that a relay puts into the rings of the others. -/
theorem relays_tells {b : List Byte} {m : Relayed} (hd : Relayed.decode b = some m)
    (hs : Relayed.said (w.sessions self).handle packet = some m) (hfit : Client.Fits b)
    (h : w.Relays self b w') (hk : k < Config.kMaxSession)
    (hc : (w.sessionPool.cells k).state = SessionState.kConnected.toNat) :
    ∃ ps, Tells (w.sessions k) (w'.sessions k)
      (if k = self then [] else (Relayed.said (w.sessions self).handle packet).toList) ps := by
  have hrelay := h k hk
  by_cases hself : k = self
  · rw [if_neg fun hcond => hcond.2.1 hself] at hrelay
    rw [if_pos hself, hrelay]
    exact ⟨[], .nothing rfl⟩
  rw [if_neg hself, hs, Option.toList_some]
  by_cases hroom : (w.sessions k).HasRoom b.length
  · rw [if_pos ⟨hc, hself, hroom⟩] at hrelay
    have hone : [b].filterMap Relayed.decode = [m] := by
      rw [List.filterMap_cons, hd, List.filterMap_nil]
    refine ⟨[b], ?_, ?_, ?_, fun _ => hone⟩
    · rw [List.flatten_singleton]
      exact hrelay
    · intro p hp
      rwa [List.mem_singleton.mp hp]
    · rw [hone]
  · rw [if_neg fun hcond => hroom hcond.2.2] at hrelay
    rw [hrelay]
    refine ⟨[], (List.append_nil _).symm, List.forall_mem_nil _, List.nil_sublist _, fun hfree => ?_⟩
    exact absurd (hfree.mono hfit.le) hroom

/-- Between the two the session in the slot `self` is sent a result. -/
def Replied (queued : Nat → Bool) (self : Nat) (w w' : Server) : Prop :=
  ∃ (w₁ w₂ : Server) (id : PacketId) (message : List Byte) (success : Bool) (response : List Byte),
    id ≠ .kMove ∧ id ≠ .kChat ∧
    message.length + 6 ≤ Config.kMaxPacketSize ∧ Carries response (resultBytes id message success) ∧
    w₁.sendPacket queued self response = some w₂ ∧
    (∀ k, (w₁.sessions k).sendOv = (w.sessions k).sendOv) ∧
    ∀ k, (w'.sessions k).sendOv = (w₂.sessions k).sendOv

theorem setAccountId_sendOv {handle : Nat} {accountId : Int}
    (h : w.setAccountId handle accountId = some w') (k : Nat) :
    (w'.sessions k).sendOv = (w.sessions k).sendOv := by
  obtain ⟨held, -, rfl⟩ := Server.setAccountId_elim h
  by_cases hk : k = slotIndex held
  · subst hk
    simp only [upd_same]
  · simp only [upd_other hk]

theorem handleRegister_replies (h : handleRegister queued q w self memory = some (q', w')) :
    Replied queued self w w' := by
  obtain ⟨⟨userId, password⟩, -, h⟩ := Option.bind_eq_some_iff.mp h
  obtain ⟨q₁, handle, q₂, -, h⟩ := withPacket_elim h
  obtain ⟨⟨q₃, response⟩, hfill, h⟩ := Option.bind_eq_some_iff.mp h
  obtain ⟨w₁, hw, h⟩ := Option.bind_eq_some_iff.mp h
  cases h
  have hm : (if (w.accounts.registerAccount userId password).1 then text "Registration successful"
      else text "ID already exists").length + 6 ≤ Config.kMaxPacketSize := by
    split_ifs <;> exact text_length_le (by decide)
  exact ⟨_, _, .kRegister, _, _, response, by decide, by decide, hm, fill_result hm hfill, hw,
    fun _ => rfl, fun _ => rfl⟩

theorem handleLogin_replies (h : handleLogin queued q w self memory = some (q', w')) :
    Replied queued self w w' := by
  obtain ⟨⟨userId, password⟩, -, h⟩ := Option.bind_eq_some_iff.mp h
  obtain ⟨q₁, handle, q₂, -, h⟩ := withPacket_elim h
  obtain ⟨session, -, h⟩ := Option.bind_eq_some_iff.mp h
  obtain ⟨⟨w₁, success⟩, hlog, h⟩ := Option.bind_eq_some_iff.mp h
  obtain ⟨⟨q₃, response⟩, hfill, h⟩ := Option.bind_eq_some_iff.mp h
  obtain ⟨w₂, hw, h⟩ := Option.bind_eq_some_iff.mp h
  obtain ⟨w₃, hset, hlog⟩ := Option.bind_eq_some_iff.mp hlog
  cases h
  cases hlog
  have hm : (if (w.accounts.authenticate userId password != 0) then text "Login successful"
      else text "Invalid credentials").length + 6 ≤ Config.kMaxPacketSize := by
    split_ifs <;> exact text_length_le (by decide)
  exact ⟨_, _, .kLogin, _, _, response, by decide, by decide, hm, fill_result hm hfill, hw,
    setAccountId_sendOv hset, fun _ => rfl⟩

theorem handleLogout_replies (h : handleLogout queued q w self memory = some (q', w')) :
    Replied queued self w w' := by
  obtain ⟨q₁, handle, q₂, -, h⟩ := withPacket_elim h
  obtain ⟨⟨q₃, response⟩, hfill, h⟩ := Option.bind_eq_some_iff.mp h
  obtain ⟨w₁, hw, h⟩ := Option.bind_eq_some_iff.mp h
  obtain ⟨session, -, h⟩ := Option.bind_eq_some_iff.mp h
  obtain ⟨w₂, hset, h⟩ := Option.bind_eq_some_iff.mp h
  cases h
  have hm : (text "Logout successful").length + 6 ≤ Config.kMaxPacketSize :=
    text_length_le (by decide)
  exact ⟨_, _, .kLogout, _, _, response, by decide, by decide, hm, fill_result hm hfill, hw,
    fun _ => rfl, setAccountId_sendOv hset⟩

/-- A reply comes into the ring of its session, if that has room for it. -/
theorem Replied.tells (h : Replied queued self w w') (hset : (w.sessions self).sendOv.Settled) :
    ∃ ps, Tells (w.sessions k) (w'.sessions k) [] ps := by
  obtain ⟨w₁, w₂, id, message, success, response, hmove, hchat, hm, hcarries, hsend, hfirst,
    hlast⟩ := h
  obtain ⟨-, r, hr, rfl⟩ := Server.sendPacket_elim hsend
  have hid : ∀ id' : PacketId, id ≠ id' → id.toNat ≠ id'.toNat := by
    intro id' hne
    revert hne
    cases id <;> cases id' <;> decide
  obtain ⟨hfit, hdecode⟩ := Relayed.decode_result (by cases id <;> decide) (hid _ hmove) (hid _ hchat)
    hm success
  have hset₁ : (w₁.sessions self).sendOv.Settled := (hfirst self).symm ▸ hset
  by_cases hk : k = self
  · subst hk
    have hov : (w'.sessions k).sendOv = r.session.sendOv := by
      rw [hlast k]
      simp only [upd_same]
    obtain ⟨r', hr', -, hroom, hfull⟩ := Session.sendPacket_appends hset₁ (Carries.mem hcarries)
      (w₁.getSession (w₁.sessions k).handle).join (queued k)
    obtain rfl := Option.some.inj (hr'.symm.trans hr)
    have hnone : [resultBytes id message success].filterMap Relayed.decode = [] := by
      rw [List.filterMap_cons, hdecode, List.filterMap_nil]
    by_cases hfree : (w₁.sessions k).HasRoom (headerSize response)
    · refine ⟨[resultBytes id message success], ?_, ?_, ?_, fun _ => hnone⟩
      · rw [hov, hroom hfree, hfirst k, List.flatten_singleton, hcarries.1, hcarries.2]
      · intro p hp
        rwa [List.mem_singleton.mp hp]
      · rw [hnone]
    · refine ⟨[], .nothing ?_⟩
      rw [hov, hfull hfree, hfirst k]
  · refine ⟨[], .nothing ?_⟩
    rw [hlast k]
    simp only [upd_other hk]
    exact hfirst k

/-- `HandleChat` returns only if its reply fits in a block. -/
theorem execute_chat_fits (hf : kHeaderSize ≤ packet.length ∧ headerSize packet = packet.length)
    (hle : headerSize packet ≤ Config.kMaxPacketSize)
    (hid : headerId packet = PacketId.kChat.toNat)
    (h : execute queued q w self packet = some (q', w')) :
    headerSize packet ≤ Config.kMaxPacketSize - 8 := by
  have hk : Config.kMaxPacketSize = 1024 := rfl
  have hh : handlers queued (headerId packet) = some (handleChat queued) := by
    rw [hid]
    rfl
  obtain ⟨q₁, q₂, memory, hmemory, h⟩ := execute_elim (hid ▸ by decide) hh h
  -- the copy
  obtain ⟨⟨p₁, handle⟩, -, hmemory⟩ := Option.bind_eq_some_iff.mp hmemory
  obtain ⟨handle, -, hmemory⟩ := Option.bind_eq_some_iff.mp hmemory
  obtain ⟨⟨p₂, bytes⟩, hcopy, hmemory⟩ := Option.bind_eq_some_iff.mp hmemory
  cases hmemory
  rw [copyPacket_of_le _ _ hle] at hcopy
  obtain ⟨b, c, hc, rfl⟩ := fill_elim hcopy
  obtain ⟨c', rest, hc', hbytes⟩ := b.copy_accepted [] hf hle
  rw [List.append_nil, hc, Option.some.injEq] at hc'
  obtain rfl := hc'
  have hheader : headerSize c.bytes = headerSize packet := by
    rw [hbytes]
    exact headerSize_append rest hf.1
  -- the reply
  obtain ⟨p₃, handle', p₄, -, h⟩ := withPacket_elim h
  obtain ⟨session, -, h⟩ := Option.bind_eq_some_iff.mp h
  obtain ⟨⟨p₅, reply⟩, hfill', -⟩ := Option.bind_eq_some_iff.mp h
  obtain ⟨b', d, hd, -⟩ := fill_elim hfill'
  by_contra hlong
  have hsize := c.size_eq
  rw [chatPacket_fault b' session.handle (by rw [hheader, hf.2]; exact hf.1)
    (by rw [hheader, hsize]; exact hle) (by rw [hheader]; omega)] at hd
  cases hd

/-- **One `Execute`.**  It puts into the ring of every connected session packets that fit in a block.
Those for another session tell what the packet says; those for its own, and those for anybody when
the packet is neither a move nor a chat, tell nothing. -/
theorem execute_tells (hp : Sayable packet) (hle : headerSize packet ≤ Config.kMaxPacketSize)
    (hrep : q.set.Rep) (h : Relaying w self)
    (hset : (w.sessions self).sendOv.Settled)
    (hrun : execute queued q w self packet = some (q', w')) (hk : k < Config.kMaxSession)
    (hc : (w.sessionPool.cells k).state = SessionState.kConnected.toNat) :
    ∃ ps, Tells (w.sessions k) (w'.sessions k)
      (if k = self then [] else (Relayed.said (w.sessions self).handle packet).toList) ps := by
  by_cases hrelay : headerId packet = PacketId.kMove.toNat ∨ headerId packet = PacketId.kChat.toNat
  · have hchat : headerId packet = PacketId.kChat.toNat →
        headerSize packet ≤ Config.kMaxPacketSize - 8 := fun hid =>
          execute_chat_fits hp.frame hle hid hrun
    have hrelayable : Relayable packet := by
      refine ⟨hp.frame, ?_⟩
      rcases hrelay with hid | hid
      · exact .inl ⟨hid, hp.move hid⟩
      · exact .inr ⟨hid, hchat hid⟩
    obtain ⟨hfree, hfit⟩ := execute_needs hrelayable hrep hrun
    obtain ⟨q₁, w₁, b, m, hrun', hd, hs, hrelays⟩ : ∃ q₁ w₁ b m,
        execute queued q w self packet = some (q₁, w₁) ∧ Relayed.decode b = some m ∧
          Relayed.said (w.sessions self).handle packet = some m ∧ w.Relays self b w₁ :=
      execute_relays hrelayable hfit ⟨hrep, hfree⟩ h
    obtain ⟨-, rfl⟩ := Prod.mk.inj (Option.some.inj (hrun'.symm.trans hrun))
    exact relays_tells hd hs (Relayed.decode_fits hd hs hchat) hrelays hk hc
  · rw [not_or] at hrelay
    rw [Relayed.said_none hrelay.1 hrelay.2, Option.toList_none, ite_self]
    by_cases hhas : HasHandler packet
    · obtain ⟨hid, hsome⟩ := hhas
      obtain ⟨handler, hh⟩ : ∃ handler, handlers queued (headerId packet) = some handler := by
        rw [← Option.isSome_iff_exists, handlers_isSome _ fun _ => true]
        exact hsome
      obtain ⟨q₁, q₂, memory, -, hrun⟩ := execute_elim hid hh hrun
      unfold handlers at hh
      split_ifs at hh with h₁ h₂ <;> cases hh
      · exact absurd h₁ hrelay.1
      · exact absurd h₂ hrelay.2
      · exact (handleRegister_replies hrun).tells hset
      · exact (handleLogin_replies hrun).tells hset
      · exact (handleLogout_replies hrun).tells hset
    · rw [execute_unhandled hhas] at hrun
      cases hrun
      exact ⟨[], .nothing rfl⟩

end PacketHandler

end IocpServer
