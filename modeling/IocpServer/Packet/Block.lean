import IocpServer.Common.Protocol
import IocpServer.Support.Slice

/-!
# Packet — Block

The blocks of the packet pool and the copies `Server/PacketHandler.cpp` makes into them.  A store
that does not lie inside its block is a fault, and so is a read behind the end of the memory it
reads from.

* `PacketBlock.copy_of_le`, `PacketBlock.copy_fault`: the `memcpy` of `header.size` bytes.
* `movePacket_carries`, `chatPacket_carries`, `resultPacket_carries`: the replies, as the bytes
  `SendPacket` takes out of the block.  Nothing of what was in the block before is among them.
-/

namespace IocpServer

/-- `PacketBlock`: `kMaxPacketSize` bytes. -/
structure PacketBlock where
  bytes : List Byte
  size_eq : bytes.length = Config.kMaxPacketSize

namespace PacketBlock

/-- The bytes `xs` stored at `off`. -/
def store (b : PacketBlock) (off : Nat) (xs : List Byte) : Option PacketBlock :=
  if h : off + xs.length ≤ Config.kMaxPacketSize then
    some ⟨Slice.store off xs b.bytes, (Slice.store_length (b.size_eq.symm ▸ h)).trans b.size_eq⟩
  else none

/-- A block of one byte over and over. -/
def filled (x : Byte) : PacketBlock := ⟨List.replicate Config.kMaxPacketSize x, List.length_replicate⟩

/-- As many of the bytes `xs` as it takes, stored at its front. -/
def front (b : PacketBlock) (xs : List Byte) : PacketBlock :=
  ⟨Slice.store 0 (xs.take Config.kMaxPacketSize) b.bytes,
    (Slice.store_length (by
      rw [b.size_eq, List.length_take, Nat.zero_add]
      exact Nat.min_le_left ..)).trans b.size_eq⟩

theorem front_nil (b : PacketBlock) : b.front [] = b := rfl

theorem front_bytes (b : PacketBlock) (xs : List Byte) :
    (b.front xs).bytes = xs.take Config.kMaxPacketSize ++ b.bytes.drop xs.length := by
  have hsize := b.size_eq
  show Slice.store 0 (xs.take Config.kMaxPacketSize) b.bytes = _
  rw [Slice.store, List.take_zero, List.nil_append, Nat.zero_add, List.length_take]
  congr 1
  rcases Nat.le_total xs.length Config.kMaxPacketSize with h | h
  · rw [Nat.min_eq_right h]
  · rw [Nat.min_eq_left h, List.drop_of_length_le hsize.le, List.drop_of_length_le (by omega)]

theorem store_front {b : PacketBlock} {xs : List Byte} (h : xs.length ≤ Config.kMaxPacketSize) :
    b.store 0 xs = some (b.front xs) := by
  have hle : 0 + xs.length ≤ Config.kMaxPacketSize := by rwa [Nat.zero_add]
  rw [store, dif_pos hle, Option.some.injEq, PacketBlock.mk.injEq]
  exact congrArg (Slice.store 0 · b.bytes) (List.take_of_length_le h).symm

theorem store_of_le (b : PacketBlock) (off : Nat) (xs : List Byte)
    (h : off + xs.length ≤ Config.kMaxPacketSize) :
    ∃ c, b.store off xs = some c ∧ c.bytes = Slice.store off xs b.bytes :=
  ⟨_, dif_pos h, rfl⟩

end PacketBlock

/-- The `len` bytes at `off` of a memory. -/
def readAt (memory : List Byte) (off len : Nat) : Option (List Byte) :=
  if off + len ≤ memory.length then some (Slice.fetch off len memory) else none

theorem readAt_of_le {memory : List Byte} {off len : Nat} (h : off + len ≤ memory.length) :
    readAt memory off len = some (Slice.fetch off len memory) :=
  if_pos h

/-! ### The copies -/

/-- `memcpy(packet->data(), &header, header.size)`. -/
def PacketBlock.copy (b : PacketBlock) (header : List Byte) : Option PacketBlock := do
  b.store 0 (← readAt header 0 (headerSize header))

/-- The `S2C_MOVE` that `HandleMove` fills in. -/
def movePacket (b : PacketBlock) (sessionHandle : Nat) (header : List Byte) : Option PacketBlock := do
  let b ← b.store 2 (leBytes 2 PacketId.kMove.toNat)
  let b ← b.store 0 (leBytes 2 20)
  let b ← b.store 4 (leBytes 8 sessionHandle)
  let b ← b.store 12 (← readAt header 4 4)
  b.store 16 (← readAt header 8 4)

/-- The `S2C_CHAT` that `HandleChat` fills in. -/
def chatPacket (b : PacketBlock) (sessionHandle : Nat) (header : List Byte) : Option PacketBlock := do
  let b ← b.store 2 (leBytes 2 PacketId.kChat.toNat)
  let b ← b.store 0 (leBytes 2 (u16 (headerSize header + 8)))
  let b ← b.store 4 (leBytes 8 sessionHandle)
  b.store 12 (← readAt header kHeaderSize (sub64 (headerSize header) kHeaderSize))

/-- The `S2C_REGISTER`, `S2C_LOGIN` or `S2C_LOGOUT` that a handler fills in: a flag and a message
with its terminator behind the header. -/
def resultPacket (id : PacketId) (resultMessage : List Byte) (success : Bool) (b : PacketBlock) :
    Option PacketBlock := do
  let messageLength := resultMessage.length + 1
  let b ← b.store 2 (leBytes 2 id.toNat)
  let b ← b.store 4 [if success then 1 else 0]
  let b ← b.store 5 (resultMessage ++ [0])
  b.store 0 (leBytes 2 (u16 (5 + messageLength)))

/-! ### What they come to -/

variable {b : PacketBlock} {header : List Byte}

namespace PacketBlock

/-- A packet no longer than a block is copied to its front. -/
theorem copy_of_le (b : PacketBlock) (hlen : headerSize header ≤ header.length)
    (hsize : headerSize header ≤ Config.kMaxPacketSize) :
    ∃ c, b.copy header = some c ∧
      c.bytes = header.take (headerSize header) ++ b.bytes.drop (headerSize header) := by
  have hread : readAt header 0 (headerSize header) = some (header.take (headerSize header)) := by
    rw [readAt_of_le (by omega), Slice.fetch_zero]
  have htake : (header.take (headerSize header)).length = headerSize header :=
    List.length_take_of_le hlen
  obtain ⟨c, hc, hbytes⟩ := b.store_of_le 0 (header.take (headerSize header)) (by omega)
  refine ⟨c, ?_, ?_⟩
  · simp only [copy, hread, Option.bind_eq_bind, Option.bind_some, hc]
  · rw [hbytes, Slice.store, htake, List.take_zero, List.nil_append, Nat.zero_add]

/-- A longer one is a fault. -/
theorem copy_fault (b : PacketBlock) (hsize : Config.kMaxPacketSize < headerSize header) :
    b.copy header = none := by
  by_cases hlen : headerSize header ≤ header.length
  · have htake : (Slice.fetch 0 (headerSize header) header).length = headerSize header :=
      Slice.fetch_length (by omega)
    have hout : ¬ 0 + (Slice.fetch 0 (headerSize header) header).length ≤ Config.kMaxPacketSize := by
      omega
    simp only [copy, readAt_of_le (show 0 + headerSize header ≤ header.length by omega),
      Option.bind_eq_bind, Option.bind_some, store, dif_neg hout]
  · simp only [copy, readAt, if_neg (show ¬ 0 + headerSize header ≤ header.length by omega),
      Option.bind_eq_bind, Option.bind_none]

/-- A packet that is no longer than a block is at the front of the block it was copied to. -/
theorem copy_accepted (b : PacketBlock) (rest : List Byte) {frame : List Byte}
    (hf : kHeaderSize ≤ frame.length ∧ headerSize frame = frame.length)
    (hsize : headerSize frame ≤ Config.kMaxPacketSize) :
    ∃ c t, b.copy (frame ++ rest) = some c ∧ c.bytes = frame ++ t := by
  have hheader : headerSize (frame ++ rest) = frame.length := (headerSize_append rest hf.1).trans hf.2
  have hlen : headerSize (frame ++ rest) ≤ (frame ++ rest).length := by
    rw [hheader, List.length_append]
    exact Nat.le_add_right _ _
  obtain ⟨c, hc, hbytes⟩ := b.copy_of_le hlen (by rwa [hheader, ← hf.2])
  rw [hheader, List.take_left' rfl] at hbytes
  exact ⟨c, _, hc, hbytes⟩

end PacketBlock

/-- `memory` begins with a packet whose bytes are `payload`. -/
def Carries (memory payload : List Byte) : Prop :=
  headerSize memory = payload.length ∧ memory.take payload.length = payload

/-- Such a packet lies in its memory. -/
theorem Carries.mem {memory payload : List Byte} (h : Carries memory payload) :
    headerSize memory ≤ memory.length := by
  rw [h.1, ← h.2, List.length_take]
  exact Nat.min_le_right ..

/-- A size written in front is the size read back. -/
theorem headerSize_leBytes {n : Nat} (hn : n < 2 ^ 16) (bs : List Byte) :
    headerSize (leBytes 2 n ++ bs) = n := by
  rw [headerSize, List.take_left' (leBytes_length 2 n), leNat_leBytes 2 hn]

/-- The bytes of a packet that writes its own length in front. -/
theorem carries_of_take {memory rest : List Byte} {n : Nat} (hn : n < 2 ^ 16)
    (hrest : 2 + rest.length = n) (h : memory.take n = leBytes 2 n ++ rest) :
    Carries memory (leBytes 2 n ++ rest) := by
  have hlen : (leBytes 2 n ++ rest).length = n := by rw [List.length_append, leBytes_length, hrest]
  have hsize : headerSize memory = n := by
    conv_lhs => rw [← List.take_append_drop n memory, h, List.append_assoc]
    exact headerSize_leBytes hn _
  exact ⟨hsize.trans hlen.symm, by rw [hlen]; exact h⟩

/-- The bytes of the `S2C_MOVE` of a session at `x` and `y`. -/
def moveBytes (sessionHandle : Nat) (xy : List Byte) : List Byte :=
  leBytes 2 20 ++ (leBytes 2 PacketId.kMove.toNat ++ (leBytes 8 sessionHandle ++ xy))

/-- The bytes of an `S2C_CHAT`. -/
def chatBytes (sessionHandle : Nat) (message : List Byte) : List Byte :=
  leBytes 2 (12 + message.length) ++
    (leBytes 2 PacketId.kChat.toNat ++ (leBytes 8 sessionHandle ++ message))

/-- The bytes of a result. -/
def resultBytes (id : PacketId) (resultMessage : List Byte) (success : Bool) : List Byte :=
  leBytes 2 (6 + resultMessage.length) ++
    (leBytes 2 id.toNat ++ (if success then 1 else 0) :: (resultMessage ++ [0]))

namespace PacketBlock

variable {b c : PacketBlock} {off a len k : Nat} {xs : List Byte}

theorem fetch_stored (e : c.bytes = Slice.store off xs b.bytes) (hx : xs.length = len)
    (h : off + len ≤ Config.kMaxPacketSize) : Slice.fetch off len c.bytes = xs := by
  rw [e]
  exact Slice.fetch_store hx (b.size_eq.symm ▸ h)

theorem fetch_ahead (e : c.bytes = Slice.store off xs b.bytes) (h : off ≤ Config.kMaxPacketSize)
    (ha : a + len ≤ off) : Slice.fetch a len c.bytes = Slice.fetch a len b.bytes := by
  rw [e]
  exact Slice.fetch_store_before (b.size_eq.symm ▸ h) ha

theorem fetch_behind (e : c.bytes = Slice.store off xs b.bytes)
    (h : off + xs.length ≤ Config.kMaxPacketSize) (ha : off + xs.length ≤ a) :
    Slice.fetch a len c.bytes = Slice.fetch a len b.bytes := by
  rw [e]
  exact Slice.fetch_store_after (b.size_eq.symm ▸ h) ha

theorem fetch_extended (e : c.bytes = Slice.store off xs b.bytes) (hx : xs.length = k)
    (h : off + k ≤ Config.kMaxPacketSize) (ha : a + len = off) :
    Slice.fetch a (len + k) c.bytes = Slice.fetch a len b.bytes ++ xs := by
  rw [e]
  exact Slice.fetch_store_extend hx (b.size_eq.symm ▸ h) ha

theorem fetch_fronted (e : c.bytes = Slice.store 0 xs b.bytes) (hx : xs.length = a)
    (h : a ≤ Config.kMaxPacketSize) :
    Slice.fetch 0 (a + k) c.bytes = xs ++ Slice.fetch a k b.bytes := by
  rw [e]
  exact Slice.fetch_store_front hx (b.size_eq.symm ▸ h)

end PacketBlock

/-- The three fields every `S2C` packet of a session begins with. -/
theorem fetch_prefixed {b b₁ b₂ b₃ : PacketBlock} {id size sessionHandle : Nat}
    (e₁ : b₁.bytes = Slice.store 2 (leBytes 2 id) b.bytes)
    (e₂ : b₂.bytes = Slice.store 0 (leBytes 2 size) b₁.bytes)
    (e₃ : b₃.bytes = Slice.store 4 (leBytes 8 sessionHandle) b₂.bytes) :
    Slice.fetch 0 12 b₃.bytes = leBytes 2 size ++ (leBytes 2 id ++ leBytes 8 sessionHandle) := by
  have t₁ : Slice.fetch 2 2 b₁.bytes = leBytes 2 id :=
    PacketBlock.fetch_stored e₁ (leBytes_length 2 id) (by decide)
  have t₂ : Slice.fetch 0 (2 + 2) b₂.bytes = leBytes 2 size ++ leBytes 2 id := by
    rw [PacketBlock.fetch_fronted e₂ (leBytes_length 2 size) (by decide), t₁]
  have t₃ : Slice.fetch 0 (4 + 8) b₃.bytes =
      Slice.fetch 0 (2 + 2) b₂.bytes ++ leBytes 8 sessionHandle :=
    PacketBlock.fetch_extended e₃ (leBytes_length 8 sessionHandle) (by decide) rfl
  rw [t₂, List.append_assoc] at t₃
  exact t₃

theorem movePacket_carries (b : PacketBlock) (sessionHandle : Nat) (h : 12 ≤ header.length) :
    ∃ c, movePacket b sessionHandle header = some c ∧
      Carries c.bytes (moveBytes sessionHandle (Slice.fetch 4 8 header)) := by
  have hx : (Slice.fetch 4 4 header).length = 4 := Slice.fetch_length (by omega)
  have hy : (Slice.fetch 8 4 header).length = 4 := Slice.fetch_length (by omega)
  obtain ⟨b₁, s₁, e₁⟩ := b.store_of_le 2 (leBytes 2 PacketId.kMove.toNat) (by
    rw [leBytes_length]; decide)
  obtain ⟨b₂, s₂, e₂⟩ := b₁.store_of_le 0 (leBytes 2 20) (by rw [leBytes_length]; decide)
  obtain ⟨b₃, s₃, e₃⟩ := b₂.store_of_le 4 (leBytes 8 sessionHandle) (by
    rw [leBytes_length]; decide)
  obtain ⟨b₄, s₄, e₄⟩ := b₃.store_of_le 12 (Slice.fetch 4 4 header) (by rw [hx]; decide)
  obtain ⟨b₅, s₅, e₅⟩ := b₄.store_of_le 16 (Slice.fetch 8 4 header) (by rw [hy]; decide)
  have t₃ := fetch_prefixed e₁ e₂ e₃
  have t₄ : Slice.fetch 0 (12 + 4) b₄.bytes = _ :=
    PacketBlock.fetch_extended e₄ hx (by decide) rfl
  have t₅ : Slice.fetch 0 (16 + 4) b₅.bytes = _ :=
    PacketBlock.fetch_extended e₅ hy (by decide) rfl
  have hxy : Slice.fetch 4 8 header = Slice.fetch 4 4 header ++ Slice.fetch 8 4 header :=
    Slice.fetch_add 4 4 4 header
  refine ⟨b₅, ?_, carries_of_take (by decide) ?_ ?_⟩
  · simp only [movePacket, s₁, s₂, s₃, readAt_of_le (show 4 + 4 ≤ header.length by omega), s₄,
      readAt_of_le (show 8 + 4 ≤ header.length by omega), s₅, Option.bind_eq_bind, Option.bind_some]
  · simp only [List.length_append, leBytes_length, hxy, hx, hy]
  · rw [← Slice.fetch_zero, t₅, t₄, t₃, hxy]
    simp only [List.append_assoc]

/-- A chat whose reply is no longer than a block. -/
theorem chatPacket_carries (b : PacketBlock) (sessionHandle : Nat)
    (hsize : kHeaderSize ≤ headerSize header) (hlen : headerSize header ≤ header.length)
    (hfit : headerSize header + 8 ≤ Config.kMaxPacketSize) :
    ∃ c, chatPacket b sessionHandle header = some c ∧
      Carries c.bytes (chatBytes sessionHandle
        (Slice.fetch kHeaderSize (headerSize header - kHeaderSize) header)) := by
  have hk : Config.kMaxPacketSize = 1024 := rfl
  have hh : kHeaderSize = 4 := rfl
  have hsub : sub64 (headerSize header) kHeaderSize = headerSize header - kHeaderSize :=
    sub64_of_le hsize (by omega)
  have hu : u16 (headerSize header + 8) = headerSize header + 8 := u16_of_lt (by omega)
  have hm : (Slice.fetch kHeaderSize (headerSize header - kHeaderSize) header).length =
      headerSize header - kHeaderSize := Slice.fetch_length (by omega)
  obtain ⟨b₁, s₁, e₁⟩ := b.store_of_le 2 (leBytes 2 PacketId.kChat.toNat) (by
    rw [leBytes_length]; decide)
  obtain ⟨b₂, s₂, e₂⟩ := b₁.store_of_le 0 (leBytes 2 (headerSize header + 8)) (by
    rw [leBytes_length]; decide)
  obtain ⟨b₃, s₃, e₃⟩ := b₂.store_of_le 4 (leBytes 8 sessionHandle) (by
    rw [leBytes_length]; decide)
  obtain ⟨b₄, s₄, e₄⟩ := b₃.store_of_le 12
    (Slice.fetch kHeaderSize (headerSize header - kHeaderSize) header) (by omega)
  have t₃ := fetch_prefixed e₁ e₂ e₃
  have t₄ : Slice.fetch 0 (12 + (headerSize header - kHeaderSize)) b₄.bytes = _ :=
    PacketBlock.fetch_extended e₄ hm (by omega) rfl
  have htotal : 12 + (headerSize header - kHeaderSize) = headerSize header + 8 := by omega
  refine ⟨b₄, ?_, ?_⟩
  · simp only [chatPacket, hu, s₁, s₂, s₃, hsub, Option.bind_eq_bind, Option.bind_some,
      readAt_of_le (show kHeaderSize + (headerSize header - kHeaderSize) ≤ header.length by omega), s₄]
  · unfold chatBytes
    rw [hm, htotal]
    refine carries_of_take (by omega) ?_ ?_
    · simp only [List.length_append, leBytes_length, hm]
      omega
    · rw [← Slice.fetch_zero, ← htotal, t₄, t₃, htotal]
      simp only [List.append_assoc]

/-- A longer one writes behind its block. -/
theorem chatPacket_fault (b : PacketBlock) (sessionHandle : Nat)
    (hsize : kHeaderSize ≤ headerSize header) (hlen : headerSize header ≤ header.length)
    (hout : Config.kMaxPacketSize < headerSize header + 8) :
    chatPacket b sessionHandle header = none := by
  have hlt := headerSize_lt header
  have hsub : sub64 (headerSize header) kHeaderSize = headerSize header - kHeaderSize :=
    sub64_of_le hsize (by omega)
  have hh : kHeaderSize = 4 := rfl
  have hm : (Slice.fetch kHeaderSize (headerSize header - kHeaderSize) header).length =
      headerSize header - kHeaderSize := Slice.fetch_length (by omega)
  obtain ⟨b₁, s₁, -⟩ := b.store_of_le 2 (leBytes 2 PacketId.kChat.toNat) (by
    rw [leBytes_length]; decide)
  obtain ⟨b₂, s₂, -⟩ := b₁.store_of_le 0 (leBytes 2 (u16 (headerSize header + 8))) (by
    rw [leBytes_length]; decide)
  obtain ⟨b₃, s₃, -⟩ := b₂.store_of_le 4 (leBytes 8 sessionHandle) (by
    rw [leBytes_length]; decide)
  have s₄ : b₃.store 12 (Slice.fetch kHeaderSize (headerSize header - kHeaderSize) header) = none :=
    dif_neg (by omega)
  simp only [chatPacket, s₁, s₂, s₃, hsub, s₄, Option.bind_eq_bind, Option.bind_some,
    readAt_of_le (show kHeaderSize + (headerSize header - kHeaderSize) ≤ header.length by omega)]

theorem resultPacket_carries (id : PacketId) {resultMessage : List Byte}
    (hfit : resultMessage.length + 6 ≤ Config.kMaxPacketSize) (success : Bool) (b : PacketBlock) :
    ∃ c, resultPacket id resultMessage success b = some c ∧
      Carries c.bytes (resultBytes id resultMessage success) := by
  have hk : Config.kMaxPacketSize = 1024 := rfl
  have hu : u16 (5 + (resultMessage.length + 1)) = 6 + resultMessage.length := by
    rw [u16_of_lt (by omega)]
    omega
  have hm : (resultMessage ++ [0]).length = resultMessage.length + 1 := List.length_append
  obtain ⟨b₁, s₁, e₁⟩ := b.store_of_le 2 (leBytes 2 id.toNat) (by rw [leBytes_length]; decide)
  obtain ⟨b₂, s₂, e₂⟩ := b₁.store_of_le 4 [if success then 1 else 0] (by decide +revert)
  obtain ⟨b₃, s₃, e₃⟩ := b₂.store_of_le 5 (resultMessage ++ [0]) (by omega)
  obtain ⟨b₄, s₄, e₄⟩ := b₃.store_of_le 0 (leBytes 2 (6 + resultMessage.length)) (by
    rw [leBytes_length]; decide)
  have t₁ : Slice.fetch 2 2 b₁.bytes = leBytes 2 id.toNat :=
    PacketBlock.fetch_stored e₁ (leBytes_length 2 id.toNat) (by decide)
  have t₂ : Slice.fetch 2 (2 + 1) b₂.bytes = _ :=
    PacketBlock.fetch_extended e₂ rfl (by decide) rfl
  have t₃ : Slice.fetch 2 (3 + (resultMessage.length + 1)) b₃.bytes = _ :=
    PacketBlock.fetch_extended e₃ hm (by omega) rfl
  have t₄ : Slice.fetch 0 (2 + (3 + (resultMessage.length + 1))) b₄.bytes = _ :=
    PacketBlock.fetch_fronted e₄ (leBytes_length 2 _) (by decide)
  have htotal : 2 + (3 + (resultMessage.length + 1)) = 6 + resultMessage.length := by omega
  refine ⟨b₄, ?_, carries_of_take (by omega) ?_ ?_⟩
  · simp only [resultPacket, hu, s₁, s₂, s₃, s₄, Option.bind_eq_bind, Option.bind_some]
  · simp only [List.length_append, leBytes_length, List.length_cons, List.length_nil]
    omega
  · rw [← Slice.fetch_zero, ← htotal, t₄, t₃, t₂, t₁]
    simp only [List.append_assoc, List.cons_append, List.nil_append, htotal]

end IocpServer
