import IocpServer.Common.Words

/-!
# Common — Protocol

`Common/Config.hpp` and `Common/Protocol.hpp`: the sizes the server is configured with, the
enumerations, and the packed little-endian layout of the packets as offsets into their bytes.
-/

namespace IocpServer

abbrev Byte := UInt8

namespace Config

def kBufferSize : Nat := 65536
def kMaxPacketSize : Nat := 1024
def kMaxPacketCount : Nat := 32768
def kMaxSession : Nat := 4096
def kIdLength : Nat := 32
def kPasswordLength : Nat := 32
def kWorkerThreadCount : Nat := 1

end Config

/-- `IO_TYPE`. -/
inductive IoType where
  | kNone
  | kRecv
  | kSend
  | kAccept
  | kDisconnect
  deriving DecidableEq, Repr

/-- `PACKET_ID`. -/
inductive PacketId where
  | kNone
  | kMove
  | kChat
  | kRegister
  | kLogin
  | kLogout
  | kCnt
  deriving DecidableEq, Repr

/-- `static_cast<uint16_t>(id)`. -/
def PacketId.toNat : PacketId → Nat
  | .kNone => 0
  | .kMove => 1
  | .kChat => 2
  | .kRegister => 3
  | .kLogin => 4
  | .kLogout => 5
  | .kCnt => 6

/-! ### Little-endian integers -/

/-- The `k` low bytes of `n`, lowest first. -/
def leBytes : Nat → Nat → List Byte
  | 0, _ => []
  | k + 1, n => UInt8.ofNat (n % 256) :: leBytes k (n / 256)

/-- The number with these bytes, lowest first. -/
def leNat : List Byte → Nat
  | [] => 0
  | b :: bs => b.toNat + 256 * leNat bs

@[simp] theorem leBytes_length : ∀ k n : Nat, (leBytes k n).length = k
  | 0, _ => rfl
  | k + 1, n => by rw [leBytes, List.length_cons, leBytes_length k]

theorem leNat_lt : ∀ bs : List Byte, leNat bs < 256 ^ bs.length
  | [] => by simp [leNat]
  | b :: bs => by
      have h := leNat_lt bs
      have hb := b.toNat_lt
      rw [leNat, List.length_cons, Nat.pow_succ]
      omega

theorem leNat_leBytes : ∀ (k : Nat) {n : Nat}, n < 256 ^ k → leNat (leBytes k n) = n
  | 0, n, h => by
      rw [Nat.pow_zero] at h
      simp only [leBytes, leNat]
      omega
  | k + 1, n, h => by
      rw [Nat.pow_succ] at h
      have hd : n / 256 < 256 ^ k := Nat.div_lt_of_lt_mul (by omega)
      have hm : (UInt8.ofNat (n % 256)).toNat = n % 256 := by
        rw [UInt8.toNat_ofNat']; omega
      rw [leBytes, leNat, leNat_leBytes k hd, hm]
      omega

/-! ### The header -/

/-- `sizeof(PACKET_HEADER)`. -/
def kHeaderSize : Nat := 4

/-- `header.size` of the packet these bytes begin. -/
def headerSize (bs : List Byte) : Nat := leNat (bs.take 2)

/-- `header.id`. -/
def headerId (bs : List Byte) : Nat := leNat ((bs.drop 2).take 2)

theorem headerSize_lt (bs : List Byte) : headerSize bs < 2 ^ 16 := by
  have h := leNat_lt (bs.take 2)
  have hlen : (bs.take 2).length ≤ 2 := List.length_take_le 2 bs
  have hpow : 256 ^ (bs.take 2).length ≤ 256 ^ 2 := Nat.pow_le_pow_right (by decide) hlen
  exact h.trans_le hpow

/-- The header is read from the first four bytes. -/
theorem headerSize_append {a : List Byte} (b : List Byte) (h : kHeaderSize ≤ a.length) :
    headerSize (a ++ b) = headerSize a := by
  have h' : 4 ≤ a.length := h
  rw [headerSize, headerSize, List.take_append_of_le_length (by omega)]

theorem headerSize_take {n : Nat} (h : kHeaderSize ≤ n) (a : List Byte) :
    headerSize (a.take n) = headerSize a := by
  have h' : 4 ≤ n := h
  rw [headerSize, headerSize, List.take_take, Nat.min_eq_left (by omega)]

theorem headerId_append {a : List Byte} (b : List Byte) (h : kHeaderSize ≤ a.length) :
    headerId (a ++ b) = headerId a := by
  have h' : 4 ≤ a.length := h
  rw [headerId, headerId, List.drop_append_of_le_length (by omega),
    List.take_append_of_le_length (by rw [List.length_drop]; omega)]

end IocpServer
