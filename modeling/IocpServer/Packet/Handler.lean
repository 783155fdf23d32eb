import IocpServer.Packet.Block
import IocpServer.Pool.SparsePool
import IocpServer.Session.Session

/-!
# Packet — Handler

`Server/PacketHandler.cpp` with what it calls in `Server/SessionManager.cpp` and
`Server/AccountManager.cpp`, on one thread.

The accounts table of the in-memory SQLite database is its rows in the order of their keys.  The
counts of references to sessions are left out, as `Execute` only copies and drops such pointers;
`queued` says for each session whether Winsock takes the send it may post.  A packet is passed on as
the bytes of its block, which stays checked out meanwhile (`PacketPool.acquire_other`).
-/

namespace IocpServer

/-- `SessionState`. -/
inductive SessionState where
  | kIdle
  | kPending
  | kConnected
  | kDisconnecting
  | kCnt
  deriving DecidableEq, Repr

/-- `static_cast<size_t>(state)`. -/
def SessionState.toNat : SessionState → Nat
  | .kIdle => 0
  | .kPending => 1
  | .kConnected => 2
  | .kDisconnecting => 3
  | .kCnt => 4

/-! ### Accounts -/

/-- A row of `accounts`. -/
structure AccountRow where
  id : Int
  username : List Byte
  password : List Byte
  deriving DecidableEq, Repr

/-- The table and the largest key `AUTOINCREMENT` has given out. -/
structure AccountStore where
  rows : List AccountRow
  seq : Int
  deriving DecidableEq, Repr

/-- `strnlen`. -/
def strnlen (bs : List Byte) (maxLength : Nat) : Nat :=
  ((bs.take maxLength).takeWhile (· != 0)).length

/-- `RegisterAccount`: `username` is `UNIQUE`, and no key follows the largest 64-bit integer. -/
def AccountStore.registerAccount (a : AccountStore) (userId password : List Byte) :
    Bool × AccountStore :=
  if a.rows.any (·.username == userId) then (false, a)
  else if a.seq = 2 ^ 63 - 1 then (false, a)
  else (true, ⟨a.rows ++ [⟨a.seq + 1, userId, password⟩], a.seq + 1⟩)

/-- `Authenticate`: the key of the last row selected, or 0. -/
def AccountStore.authenticate (a : AccountStore) (userId password : List Byte) : Int :=
  (a.rows.filter fun row => row.username == userId && row.password == password).foldl
    (fun _ row => row.id) 0

/-! ### Sessions -/

/-- The session manager's pool, slots and pointers, and the account manager's table. -/
structure Server where
  sessionPool : SparseSet Config.kMaxSession SessionState.kCnt.toNat
  sessions : Nat → Session
  sessionPtrs : Nat → Option Nat
  accounts : AccountStore

namespace Server

variable (queued : Nat → Bool)

/-- `GetSession`. -/
def getSession (w : Server) (handle : Nat) : Option (Option Nat) :=
  rd Config.kMaxSession w.sessionPtrs (slotIndex handle)

/-- `SendPacket` of the session in a slot.  `RegisterSend` looks its own session up. -/
def sendPacket (w : Server) (slot : Nat) (header : List Byte) : Option Server := do
  let s ← rd Config.kMaxSession w.sessions slot
  let ptr := w.getSession s.handle
  let r ← s.sendPacket header ptr.join (queued slot)
  if r.io.isSome ∧ ptr.isNone then none
  else
    let sessions ← wr Config.kMaxSession w.sessions slot r.session
    return { w with sessions }

/-- `SendToSession`. -/
def sendToSession (w : Server) (sessionHandle : Nat) (header : List Byte) : Option Server := do
  let session ← w.getSession sessionHandle
  match session with
  | none => return w
  | some handle =>
    if w.sessionPool.isValid handle then
      w.sendPacket queued (slotIndex handle) header
    else return w

/-- `Broadcast`. -/
def broadcast (w : Server) (sessionHandle : Nat) (header : List Byte) : Option Server := do
  let sessions ← w.sessionPool.getIndicesInState SessionState.kConnected.toNat
  sessions.foldlM (fun w handle =>
    if handle = sessionHandle then some w else w.sendToSession queued handle header) w

/-- `sessionPtrs_[idx]->accountId_ = accountId`. -/
def setAccountId (w : Server) (handle : Nat) (accountId : Int) : Option Server := do
  let entry ← rd Config.kMaxSession w.sessionPtrs (slotIndex handle)
  -- `operator->` of an empty pointer goes through a null `pool_`
  let held ← entry
  let s ← rd Config.kMaxSession w.sessions (slotIndex held)
  let sessions ← wr Config.kMaxSession w.sessions (slotIndex held) { s with accountId }
  return { w with sessions }

/-- `LogInSession`.  The `dbId_` of an `Account` made from a packet is 0. -/
def logInSession (w : Server) (handle : Nat) (userId password : List Byte) :
    Option (Server × Bool) := do
  let result := w.accounts.authenticate userId password
  let w ← w.setAccountId handle 0
  return (w, result != 0)

/-- `LogOutSession`. -/
def logOutSession (w : Server) (handle : Nat) : Option Server := w.setAccountId handle 0

end Server

/-! ### Packets -/

/-- `packetPool_`. -/
abbrev PacketPool := SparsePool PacketBlock Config.kMaxPacketCount 2

namespace PacketPool

/-- The life of a local `SharedPoolPtr<PacketBlock> packet = AcquirePacket()`, around what is done
with its slot.  `packet->data()` of the `nullptr` of an exhausted pool is a fault. -/
def withPacket {β : Type} (q : PacketPool) (body : PacketPool → Nat → Option (PacketPool × β)) :
    Option (PacketPool × β) := do
  let (q, packet) ← q.acquire id 1
  let handle ← packet
  let (q, r) ← body q (slotIndex handle)
  let q ← q.releaseRef handle
  return (q, r)

/-- What is written into a block, and the bytes it then holds. -/
def fill (q : PacketPool) (slot : Nat) (write : PacketBlock → Option PacketBlock) :
    Option (PacketPool × List Byte) := do
  let b ← rd Config.kMaxPacketCount q.obj slot
  let b ← write b
  return ({ q with obj := upd q.obj slot b }, b.bytes)

/-- The `sizeof` of a slot: the block, `handle_` and `refCount_`. -/
def kSlotSize : Nat := Config.kMaxPacketSize + 16

/-- The slots when `bytes` are stored from the block of `slot` on.  What does not go into the block
goes to its `handle_`, which nothing reads, to its `refCount_`, and to the slots that follow. -/
def overwrite (q : PacketPool) (slot : Nat) (bytes : List Byte) : PacketPool :=
  let off k := (k - slot) * kSlotSize
  { q with
    obj := fun k =>
      if slot ≤ k then (q.obj k).front (bytes.drop (off k)) else q.obj k
    refCount := fun k =>
      if slot ≤ k ∧ off k + Config.kMaxPacketSize + 8 < bytes.length then
        leNat (Slice.store 0 ((bytes.drop (off k + Config.kMaxPacketSize + 8)).take 8)
          (leBytes 8 (q.refCount k)))
      else q.refCount k }

/-- `memcpy(packet->data(), &header, header.size)` into the block of a slot, and the bytes the block
then holds.  A copy that runs over the end of the pool is a fault. -/
def copyPacket (q : PacketPool) (slot : Nat) (header : List Byte) :
    Option (PacketPool × List Byte) := do
  let bytes ← readAt header 0 (headerSize header)
  if slot < Config.kMaxPacketCount ∧
      slot * kSlotSize + bytes.length ≤ Config.kMaxPacketCount * kSlotSize then
    let q := q.overwrite slot bytes
    return (q, (q.obj slot).bytes)
  else none

end PacketPool

open PacketPool

namespace PacketHandler

/-- The characters of a string literal. -/
def text (s : String) : List Byte := s.toList.map fun c => UInt8.ofNat c.toNat

variable (queued : Nat → Bool) (q : PacketPool) (w : Server) (self : Nat) (header : List Byte)

/-- `HandleMove`. -/
def handleMove : Option (PacketPool × Server) :=
  withPacket q fun q slot => do
    let session ← rd Config.kMaxSession w.sessions self
    let (q, packet) ← fill q slot (movePacket · session.handle header)
    let w ← w.broadcast queued session.handle packet
    return (q, w)

/-- `HandleChat`. -/
def handleChat : Option (PacketPool × Server) :=
  withPacket q fun q slot => do
    let session ← rd Config.kMaxSession w.sessions self
    let (q, packet) ← fill q slot (chatPacket · session.handle header)
    let w ← w.broadcast queued session.handle packet
    return (q, w)

/-- The `id` and `password` of a `C2S_REGISTER` or `C2S_LOGIN`, as the strings made of them. -/
def credentials : Option (List Byte × List Byte) := do
  let id ← readAt header 4 Config.kIdLength
  let password ← readAt header (4 + Config.kIdLength) Config.kPasswordLength
  return (id.take (strnlen id Config.kIdLength),
    password.take (strnlen password Config.kPasswordLength))

/-- `HandleRegister`. -/
def handleRegister : Option (PacketPool × Server) := do
  let (userId, password) ← credentials header
  let (success, accounts) := w.accounts.registerAccount userId password
  let resultMessage := if success then text "Registration successful" else text "ID already exists"
  withPacket q fun q slot => do
    let (q, response) ← fill q slot (resultPacket .kRegister resultMessage success)
    let w ← Server.sendPacket queued { w with accounts } self response
    return (q, w)

/-- `HandleLogin`. -/
def handleLogin : Option (PacketPool × Server) := do
  let (userId, password) ← credentials header
  withPacket q fun q slot => do
    let session ← rd Config.kMaxSession w.sessions self
    let (w, success) ← w.logInSession session.handle userId password
    let resultMessage := if success then text "Login successful" else text "Invalid credentials"
    let (q, response) ← fill q slot (resultPacket .kLogin resultMessage success)
    let w ← w.sendPacket queued self response
    return (q, w)

/-- `HandleLogout`. -/
def handleLogout (_header : List Byte) : Option (PacketPool × Server) :=
  withPacket q fun q slot => do
    let (q, response) ← fill q slot (resultPacket .kLogout (text "Logout successful") true)
    let w ← w.sendPacket queued self response
    let session ← rd Config.kMaxSession w.sessions self
    let w ← w.logOutSession session.handle
    return (q, w)

/-- `handlers_`, by `header.id`. -/
def handlers (id : Nat) :
    Option (PacketPool → Server → Nat → List Byte → Option (PacketPool × Server)) :=
  if id = PacketId.kMove.toNat then some (handleMove queued)
  else if id = PacketId.kChat.toNat then some (handleChat queued)
  else if id = PacketId.kRegister.toNat then some (handleRegister queued)
  else if id = PacketId.kLogin.toNat then some (handleLogin queued)
  else if id = PacketId.kLogout.toNat then some (handleLogout queued)
  else none

/-- `Execute`, of the packet at the start of the memory `header` for the session in the slot
`self`. -/
def execute : Option (PacketPool × Server) :=
  if PacketId.kCnt.toNat ≤ headerId header then
    -- "Invalid packet ID"
    some (q, w)
  else match handlers queued (headerId header) with
    | none => some (q, w)  -- "No handler for packet ID"
    | some handler => withPacket q fun q slot => do
      let (q, packet) ← copyPacket q slot header
      handler q w self packet

end PacketHandler

namespace PacketPool

variable {q q' : PacketPool} {slot : Nat} {header : List Byte}

/-- A block filled. -/
theorem fill_some (hs : slot < Config.kMaxPacketCount) {write : PacketBlock → Option PacketBlock}
    {c : PacketBlock} (hc : write (q.obj slot) = some c) :
    fill q slot write = some ({ q with obj := upd q.obj slot c }, c.bytes) := by
  simp only [fill, rd_of_lt hs, hc, Option.bind_eq_bind, Option.bind_some]
  rfl

/-- The slot that the next packet is taken from. -/
def Next (q : PacketPool) (slot : Nat) : Prop :=
  ∃ p handle, q.acquire id 1 = some (p, some handle) ∧ slotIndex handle = slot

theorem Next.lt (h : q.set.Rep) (hn : q.Next slot) : slot < Config.kMaxPacketCount := by
  obtain ⟨p, handle, ha, rfl⟩ := hn
  rcases SparsePool.acquire_spec h (by decide) (by decide : 1 < 2) (by decide) id with
    ⟨i, p', hi, ha', -⟩ | ⟨-, ha'⟩
  · rw [ha', Option.some.injEq, Prod.mk.injEq, Option.some.injEq] at ha
    have hlt := (SparsePool.mem_free.mp hi).1
    rw [← ha.2, h.slotIndex_handle (by decide) hlt]
    exact hlt
  · rw [ha', Option.some.injEq, Prod.mk.injEq] at ha
    exact absurd ha.2 (by simp)

/-- A packet no longer than a slot keeps inside the pool. -/
theorem slot_fits (hs : slot < Config.kMaxPacketCount) {n : Nat} (hn : n ≤ kSlotSize) :
    slot * kSlotSize + n ≤ Config.kMaxPacketCount * kSlotSize :=
  calc slot * kSlotSize + n ≤ slot * kSlotSize + kSlotSize := Nat.add_le_add_left hn _
    _ = (slot + 1) * kSlotSize := (Nat.succ_mul slot kSlotSize).symm
    _ ≤ Config.kMaxPacketCount * kSlotSize := Nat.mul_le_mul_right _ hs

/-- A packet that keeps inside the pool is copied, to the front of the block and behind it. -/
theorem copyPacket_some (q : PacketPool) (hs : slot < Config.kMaxPacketCount)
    (hlen : headerSize header ≤ header.length)
    (hfit : slot * kSlotSize + headerSize header ≤ Config.kMaxPacketCount * kSlotSize) :
    ∃ q' bytes, copyPacket q slot header = some (q', bytes) ∧ q'.set = q.set ∧
      bytes = (header.take (headerSize header)).take Config.kMaxPacketSize ++
        (q.obj slot).bytes.drop (headerSize header) := by
  have hread : readAt header 0 (headerSize header) = some (header.take (headerSize header)) := by
    rw [readAt_of_le (by omega), Slice.fetch_zero]
  have hl : (header.take (headerSize header)).length = headerSize header := List.length_take_of_le hlen
  refine ⟨q.overwrite slot (header.take (headerSize header)),
    ((q.overwrite slot (header.take (headerSize header))).obj slot).bytes, ?_, rfl, ?_⟩
  · simp only [copyPacket, hread, hl, Option.bind_eq_bind, Option.bind_some, if_pos (And.intro hs hfit)]
    rfl
  · simp only [overwrite, le_refl, if_true, Nat.sub_self, Nat.zero_mul, List.drop_zero]
    rw [PacketBlock.front_bytes, hl]

/-- A packet no longer than a block goes into the block only. -/
theorem copyPacket_of_le (q : PacketPool) (slot : Nat)
    (hfit : headerSize header ≤ Config.kMaxPacketSize) :
    copyPacket q slot header = fill q slot (·.copy header) := by
  by_cases hs : slot < Config.kMaxPacketCount
  swap
  · cases hread : readAt header 0 (headerSize header) <;> simp [copyPacket, fill, rd, hread, hs]
  cases hread : readAt header 0 (headerSize header) with
  | none => simp [copyPacket, fill, PacketBlock.copy, hread]
  | some bytes =>
    have hl : bytes.length ≤ Config.kMaxPacketSize := by
      rw [readAt] at hread
      split_ifs at hread
      cases hread
      exact (List.length_take_le ..).trans hfit
    have hcopy : (q.obj slot).copy header = some ((q.obj slot).front bytes) := by
      simp only [PacketBlock.copy, hread, Option.bind_eq_bind, Option.bind_some]
      exact PacketBlock.store_front hl
    have hin := slot_fits hs (hl.trans (show Config.kMaxPacketSize ≤ kSlotSize by decide))
    have hk : kSlotSize = Config.kMaxPacketSize + 16 := rfl
    -- nothing is left for what is behind the block
    have hover : q.overwrite slot bytes =
        { q with obj := upd q.obj slot ((q.obj slot).front bytes) } := by
      rw [overwrite]
      congr 1
      · funext k
        have hcount : ¬ (slot ≤ k ∧
            (k - slot) * kSlotSize + Config.kMaxPacketSize + 8 < bytes.length) := by omega
        exact if_neg hcount
      · funext k
        beta_reduce
        rcases Nat.lt_trichotomy k slot with h | rfl | h
        · rw [upd_other h.ne, if_neg (Nat.not_le.mpr h)]
        · rw [upd_same, if_pos le_rfl, Nat.sub_self, Nat.zero_mul, List.drop_zero]
        · have hle : kSlotSize ≤ (k - slot) * kSlotSize :=
            Nat.le_mul_of_pos_left _ (Nat.sub_pos_of_lt h)
          rw [upd_other h.ne', if_pos h.le, List.drop_of_length_le (by omega), PacketBlock.front_nil]
    have hfill : fill q slot (·.copy header) = _ := fill_some hs hcopy
    simp only [copyPacket, hread, Option.bind_eq_bind, Option.bind_some,
      if_pos (And.intro hs hin), hover, upd_same, hfill]
    rfl

/-- A copy that returns has kept inside the pool, and the set is as it was. -/
theorem copyPacket_elim {packet : List Byte} (h : copyPacket q slot header = some (q', packet)) :
    q'.set = q.set ∧
      slot * kSlotSize + headerSize header ≤ Config.kMaxPacketCount * kSlotSize := by
  obtain ⟨bytes, hread, h⟩ := Option.bind_eq_some_iff.mp h
  rw [readAt] at hread
  split_ifs at hread with hlen
  cases hread
  have hbytes : (Slice.fetch 0 (headerSize header) header).length = headerSize header :=
    Slice.fetch_length hlen
  rw [hbytes] at h
  split_ifs at h with hfit
  cases h
  exact ⟨rfl, hfit.2⟩

/-- While a packet is checked out no other gets its block. -/
theorem acquire_other (h : q.set.Rep) {handle : Nat} (hout : slot ∉ q.free)
    (ha : q.acquire id 1 = some (q', some handle)) : slotIndex handle ≠ slot := by
  rcases SparsePool.acquire_spec h (by decide) (by decide : 1 < 2) (by decide) id with
    ⟨i, q'', hi, ha', -⟩ | ⟨-, ha'⟩
  · rw [ha', Option.some.injEq, Prod.mk.injEq, Option.some.injEq] at ha
    obtain ⟨-, rfl⟩ := ha
    rw [h.slotIndex_handle (by decide) (SparsePool.mem_free.mp hi).1]
    rintro rfl
    exact hout hi
  · rw [ha', Option.some.injEq, Prod.mk.injEq] at ha
    exact absurd ha.2 (by simp)

end PacketPool

end IocpServer
