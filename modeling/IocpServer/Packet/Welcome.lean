import IocpServer.Packet.Block

/-!
# Packet — Welcome

The `S2C_CHAT` with which `Session::Connect` welcomes a client, and what `Tests/Base/Client.cpp`
reads of it.

* `welcomePacket_some`: what `Connect` has in its block.
* `receivePacket_sent`: what the client has in its buffer.
* `welcome_incomplete`: the message never arrives; `welcome_handle`: nor does the handle.
-/

namespace IocpServer

/-! ### Texts -/

/-- The decimal text of a number. -/
def decimal (n : Nat) : List Byte := (Nat.toDigits 10 n).map fun c => UInt8.ofNat c.toNat

/-- What `sprintf` writes for `%lld`: the 64 bits of `n` as a signed number. -/
def lldText (n : Nat) : List Byte := if n < 2 ^ 63 then decimal n else 45 :: decimal (2 ^ 64 - n)

/-- `strlen`. -/
def strlen (bs : List Byte) : Option Nat := bs.findIdx? (· = 0)

theorem decimal_length_le_iff {n k : Nat} (hk : 0 < k) : (decimal n).length ≤ k ↔ n < 10 ^ k := by
  rw [decimal, List.length_map]
  exact Nat.length_toDigits_le_iff (by decide) hk

theorem decimal_ne_zero {n : Nat} : ∀ x ∈ decimal n, x ≠ 0 := by
  intro x hx
  obtain ⟨c, hc, rfl⟩ := List.mem_map.mp hx
  have hdigit := Nat.isDigit_of_mem_toDigits (by decide) (by decide) hc
  simp only [Char.isDigit, Bool.and_eq_true, decide_eq_true_eq, ge_iff_le, UInt32.le_iff_toNat_le] at hdigit
  have hlo : 48 ≤ c.toNat := hdigit.1
  have hhi : c.toNat ≤ 57 := hdigit.2
  intro h0
  have hnat := congrArg UInt8.toNat h0
  rw [UInt8.toNat_ofNat', Nat.mod_eq_of_lt (by omega)] at hnat
  change c.toNat = 0 at hnat
  omega

theorem lldText_ne_zero {n : Nat} : ∀ x ∈ lldText n, x ≠ 0 := by
  intro x hx
  rw [lldText] at hx
  split at hx
  · exact decimal_ne_zero x hx
  · rcases List.mem_cons.mp hx with rfl | hx
    · decide
    · exact decimal_ne_zero x hx

theorem lldText_length {n : Nat} (h : n < 2 ^ 64) : (lldText n).length ≤ 20 := by
  rw [lldText]
  split
  · exact (decimal_length_le_iff (by decide)).mpr (by omega)
  · have hle : (decimal (2 ^ 64 - n)).length ≤ 19 := (decimal_length_le_iff (by decide)).mpr (by omega)
    rw [List.length_cons]
    omega

/-- The text of `%lld` is not much longer than that of the number. -/
theorem lldText_length_le {n : Nat} (h : n < 2 ^ 64) : (lldText n).length ≤ (decimal n).length + 1 := by
  by_cases hn : n < 2 ^ 63
  · rw [lldText, if_pos hn]
    exact Nat.le_succ _
  · have h₁ := lldText_length h
    have h₂ : ¬ (decimal n).length ≤ 18 := by
      rw [decimal_length_le_iff (by decide)]
      omega
    omega

/-- `strlen` stops at the terminator. -/
theorem strlen_append {xs : List Byte} (hx : ∀ x ∈ xs, x ≠ 0) (ys : List Byte) :
    strlen (xs ++ 0 :: ys) = some xs.length := by
  induction xs with
  | nil => rfl
  | cons x xs ih =>
      have h0 : x ≠ 0 := hx x List.mem_cons_self
      have ih' := ih fun y hy => hx y (List.mem_cons_of_mem x hy)
      rw [strlen] at ih' ⊢
      rw [List.cons_append, List.findIdx?_cons, ih']
      simp [h0]

/-! ### The packet -/

/-- The `S2C_CHAT` that `Connect` fills in. -/
def welcomePacket (b : PacketBlock) (handle : Nat) : Option PacketBlock := do
  let b ← b.store 2 (leBytes 2 PacketId.kChat.toNat)
  let b ← b.store 12 (lldText handle ++ [0])
  let length ← strlen (b.bytes.drop 12)
  b.store 0 (leBytes 2 (u16 (kHeaderSize + length + 1)))

/-- The bytes that `SendPacket` takes out of a block. -/
def PacketBlock.sent (b : PacketBlock) : List Byte := b.bytes.take (headerSize b.bytes)

/-- `Client::ReceivePacket`. -/
def receivePacket (buffer : PacketBlock) (stream : List Byte) : Option PacketBlock := do
  let buffer ← buffer.store 0 (← readAt stream 0 kHeaderSize)
  buffer.store kHeaderSize
    (← readAt stream kHeaderSize (sub64 (headerSize buffer.bytes) kHeaderSize))

/-- The client finds the handle in an `S2C_CHAT`, and its text with the terminator. -/
structure Welcomes (handle : Nat) (packet : PacketBlock) : Prop where
  sessionHandle : leNat (Slice.fetch 4 8 packet.bytes) = handle
  message : decimal handle ++ [0] <+:
    Slice.fetch 12 (headerSize packet.bytes - 12) packet.bytes

variable {b c : PacketBlock} {handle : Nat}

/-- `Connect` writes around the handle's place. -/
theorem welcomePacket_some (b : PacketBlock) (h : handle < 2 ^ 64) :
    ∃ c, welcomePacket b handle = some c ∧ headerSize c.bytes = 5 + (lldText handle).length ∧
      Slice.fetch 4 8 c.bytes = Slice.fetch 4 8 b.bytes := by
  have hk : Config.kMaxPacketSize = 1024 := rfl
  have hh : kHeaderSize = 4 := rfl
  have hlen := lldText_length h
  have hu : u16 (kHeaderSize + (lldText handle).length + 1) = 5 + (lldText handle).length := by
    rw [u16_of_lt] <;> omega
  obtain ⟨b₁, s₁, e₁⟩ := b.store_of_le 2 (leBytes 2 PacketId.kChat.toNat) (by
    rw [leBytes_length]; decide)
  obtain ⟨b₂, s₂, e₂⟩ := b₁.store_of_le 12 (lldText handle ++ [0]) (by
    rw [List.length_append, List.length_singleton]; omega)
  obtain ⟨b₃, s₃, e₃⟩ := b₂.store_of_le 0 (leBytes 2 (5 + (lldText handle).length)) (by
    rw [leBytes_length]; decide)
  have hdrop : b₂.bytes.drop 12 =
      lldText handle ++ 0 :: b₁.bytes.drop (12 + (lldText handle ++ [0]).length) := by
    have htake : (b₁.bytes.take 12).length = 12 := List.length_take_of_le (by rw [b₁.size_eq]; decide)
    rw [e₂, Slice.store, List.drop_left' htake, List.append_assoc]
    rfl
  have hstrlen : strlen (b₂.bytes.drop 12) = some (lldText handle).length := by
    rw [hdrop]
    exact strlen_append lldText_ne_zero _
  refine ⟨b₃, ?_, ?_, ?_⟩
  · simp only [welcomePacket, s₁, s₂, hstrlen, hu, s₃, Option.bind_eq_bind, Option.bind_some]
  · rw [e₃]
    exact headerSize_leBytes (by omega) _
  · have t₃ : Slice.fetch 4 8 b₃.bytes = Slice.fetch 4 8 b₂.bytes :=
      PacketBlock.fetch_behind e₃ (by rw [leBytes_length]; decide) (by rw [leBytes_length]; decide)
    have t₂ : Slice.fetch 4 8 b₂.bytes = Slice.fetch 4 8 b₁.bytes :=
      PacketBlock.fetch_ahead e₂ (by decide) (by decide)
    have t₁ : Slice.fetch 4 8 b₁.bytes = Slice.fetch 4 8 b.bytes :=
      PacketBlock.fetch_behind e₁ (by rw [leBytes_length]; decide) (by rw [leBytes_length])
    rw [t₃, t₂, t₁]

theorem receivePacket_eq {buffer r₁ r₂ : PacketBlock} {stream front rest : List Byte}
    (hfront : readAt stream 0 kHeaderSize = some front) (s₁ : buffer.store 0 front = some r₁)
    (hrest : readAt stream kHeaderSize (sub64 (headerSize r₁.bytes) kHeaderSize) = some rest)
    (s₂ : r₁.store kHeaderSize rest = some r₂) : receivePacket buffer stream = some r₂ := by
  refine Option.bind_eq_some_iff.mpr ⟨front, hfront, Option.bind_eq_some_iff.mpr ⟨r₁, s₁, ?_⟩⟩
  exact Option.bind_eq_some_iff.mpr ⟨rest, hrest, s₂⟩

/-- A packet that is no longer than a block arrives in front of what was in the buffer. -/
theorem receivePacket_sent (buffer : PacketBlock) (hsize : kHeaderSize ≤ headerSize c.bytes)
    (hfit : headerSize c.bytes ≤ Config.kMaxPacketSize) :
    ∃ r, receivePacket buffer c.sent = some r ∧
      r.bytes = c.sent ++ buffer.bytes.drop (headerSize c.bytes) := by
  have hk : Config.kMaxPacketSize = 1024 := rfl
  have hh : kHeaderSize = 4 := rfl
  have hlen : c.sent.length = headerSize c.bytes :=
    List.length_take_of_le (hfit.trans (Nat.le_of_eq c.size_eq.symm))
  have hfront : (Slice.fetch 0 kHeaderSize c.sent).length = kHeaderSize :=
    Slice.fetch_length (by omega)
  have htake : (c.sent.take kHeaderSize).length = kHeaderSize := List.length_take_of_le (by omega)
  obtain ⟨r₁, s₁, e₁⟩ := buffer.store_of_le 0 (Slice.fetch 0 kHeaderSize c.sent) (by omega)
  have hr₁ : r₁.bytes = c.sent.take kHeaderSize ++ buffer.bytes.drop kHeaderSize := by
    rw [e₁, Slice.store, List.take_zero, List.nil_append, hfront, Slice.fetch_zero, Nat.zero_add]
  have hheader : headerSize r₁.bytes = headerSize c.bytes := by
    rw [hr₁, headerSize_append _ (Nat.le_of_eq htake.symm), headerSize_take le_rfl, PacketBlock.sent,
      headerSize_take hsize]
  have hrest : (Slice.fetch kHeaderSize (headerSize c.bytes - kHeaderSize) c.sent).length =
      headerSize c.bytes - kHeaderSize := Slice.fetch_length (by omega)
  obtain ⟨r₂, s₂, e₂⟩ := r₁.store_of_le kHeaderSize
    (Slice.fetch kHeaderSize (headerSize c.bytes - kHeaderSize) c.sent) (by omega)
  have hread₁ : readAt c.sent 0 kHeaderSize = some (Slice.fetch 0 kHeaderSize c.sent) :=
    readAt_of_le (by omega)
  have hread₂ : readAt c.sent kHeaderSize (sub64 (headerSize r₁.bytes) kHeaderSize) =
      some (Slice.fetch kHeaderSize (headerSize c.bytes - kHeaderSize) c.sent) := by
    rw [hheader, sub64_of_le hsize (by omega), readAt_of_le (by omega)]
  refine ⟨r₂, ?_, ?_⟩
  · exact receivePacket_eq hread₁ s₁ hread₂ s₂
  · have hdrop : Slice.fetch kHeaderSize (headerSize c.bytes - kHeaderSize) c.sent =
        c.sent.drop kHeaderSize := by
      rw [Slice.fetch, List.take_of_length_le]
      rw [List.length_drop, hlen]
    have hfar : r₁.bytes.drop (headerSize c.bytes) = buffer.bytes.drop (headerSize c.bytes) := by
      obtain ⟨k, hk⟩ := Nat.exists_eq_add_of_le hsize
      rw [hr₁, hk, List.drop_append, List.drop_eq_nil_of_le (by omega), List.nil_append, htake,
        Nat.add_sub_cancel_left, List.drop_drop]
    rw [e₂, Slice.store, hrest, Nat.add_sub_cancel' hsize, hfar, hdrop, hr₁, List.take_left' htake,
      ← List.append_assoc, List.take_append_drop]

/-- **The text never arrives whole**: the size lacks the eight bytes of the handle. -/
theorem welcome_incomplete (b : PacketBlock) (h : handle < 2 ^ 64) :
    ∃ c r, welcomePacket b handle = some c ∧ receivePacket (.filled 0) c.sent = some r ∧
      ¬ Welcomes handle r := by
  have hlen := lldText_length h
  obtain ⟨c, hc, hsize, -⟩ := welcomePacket_some b h
  have hk : Config.kMaxPacketSize = 1024 := rfl
  have hh : kHeaderSize = 4 := rfl
  obtain ⟨r, hr, hbytes⟩ := receivePacket_sent (c := c) (.filled 0) (by omega) (by omega)
  refine ⟨c, r, hc, hr, fun hw => ?_⟩
  have hsent : headerSize r.bytes = headerSize c.bytes := by
    have hfront : kHeaderSize ≤ c.sent.length := by
      rw [PacketBlock.sent, List.length_take, c.size_eq]
      omega
    rw [hbytes, headerSize_append _ hfront, PacketBlock.sent, headerSize_take (by omega)]
  have hroom := hw.message.length_le
  have hle : (Slice.fetch 12 (headerSize r.bytes - 12) r.bytes).length ≤ headerSize r.bytes - 12 :=
    List.length_take_le _ _
  have htext := lldText_length_le h
  rw [List.length_append, List.length_singleton] at hroom
  omega

theorem leNat_append_replicate (bs : List Byte) (m : Nat) :
    leNat (bs ++ List.replicate m 0) = leNat bs := by
  induction bs with
  | nil =>
      induction m with
      | zero => rfl
      | succ m ih =>
          rw [List.nil_append] at ih
          rw [List.nil_append, List.replicate_succ]
          show 0 + 256 * leNat (List.replicate m 0) = 0
          rw [ih]
          rfl
  | cons b bs ih => rw [List.cons_append, leNat, leNat, ih]

/-- **The handle the client reads** is what was in its place in the block before, as far as the
packet goes. -/
theorem welcome_handle (b : PacketBlock) (h : handle < 2 ^ 64) :
    ∃ c r, welcomePacket b handle = some c ∧ receivePacket (.filled 0) c.sent = some r ∧
      leNat (Slice.fetch 4 8 r.bytes) =
        leNat ((Slice.fetch 4 8 b.bytes).take ((lldText handle).length + 1)) := by
  have hlen := lldText_length h
  obtain ⟨c, hc, hsize, hplace⟩ := welcomePacket_some b h
  have hk : Config.kMaxPacketSize = 1024 := rfl
  have hh : kHeaderSize = 4 := rfl
  obtain ⟨r, hr, hbytes⟩ := receivePacket_sent (c := c) (.filled 0) (by omega) (by omega)
  refine ⟨c, r, hc, hr, ?_⟩
  have hsent : c.sent.length = 5 + (lldText handle).length := by
    rw [PacketBlock.sent, List.length_take, c.size_eq]
    omega
  have htake : Slice.fetch 4 8 c.sent =
      (Slice.fetch 4 8 c.bytes).take ((lldText handle).length + 1) := by
    rw [Slice.fetch, Slice.fetch, PacketBlock.sent, hsize, List.drop_take, List.take_take,
      List.take_take, Nat.min_comm]
    congr 2
    omega
  rw [hbytes, PacketBlock.filled, List.drop_replicate, Slice.fetch_append_replicate _ _ (by omega),
    leNat_append_replicate, htake, hplace]

instance (handle : Nat) (packet : PacketBlock) : Decidable (Welcomes handle packet) :=
  decidable_of_iff (leNat (Slice.fetch 4 8 packet.bytes) = handle ∧ decimal handle ++ [0] <+:
    Slice.fetch 12 (headerSize packet.bytes - 12) packet.bytes) ⟨fun h => ⟨h.1, h.2⟩, fun h => ⟨h.1, h.2⟩⟩

/-- The second session in slot 7. -/
theorem welcome_incomplete_seven : ∃ c r, welcomePacket (.filled 0) (2 ^ 32 + 7) = some c ∧
    receivePacket (.filled 0) c.sent = some r ∧ ¬ Welcomes (2 ^ 32 + 7) r :=
  welcome_incomplete (.filled 0) (by decide)

/-- Its client gets the text `"429"` of `4294967303`, without a terminator. -/
theorem welcome_lost : ((welcomePacket (.filled 0) (2 ^ 32 + 7)).bind fun c =>
    (receivePacket (.filled 0) c.sent).map fun r => (decide (Welcomes (2 ^ 32 + 7) r),
      Slice.fetch 12 (headerSize r.bytes - 12) r.bytes)) =
    some (false, [52, 50, 57]) := by
  decide +kernel

end IocpServer
