import IocpServer.Common.Protocol
import IocpServer.Support.Mirror

/-!
# Common — MirroredRingBuffer

`Common/MirroredRingBuffer.hpp`.  The buffer's `size` bytes are mapped twice in a row, so that an
offset from `GetBuffer()` below `2 * size` is the byte at its remainder.  `read` and `write` are
`none` outside the two mappings.
-/

namespace IocpServer

/-- `MirroredRingBuffer`: the bytes behind the two mappings. -/
structure MirroredRingBuffer where
  size : Nat
  mem : Nat → Byte

namespace MirroredRingBuffer

/-- `Reset`. -/
def reset (b : MirroredRingBuffer) : MirroredRingBuffer := { b with mem := fun _ => 0 }

/-- The `len` bytes at `GetBuffer() + off`. -/
def read (b : MirroredRingBuffer) (off len : Nat) : Option (List Byte) :=
  if off + len ≤ 2 * b.size then some (Mirror.peek b.size b.mem off len) else none

/-- The buffer after `bytes` are stored at `GetBuffer() + off`. -/
def write (b : MirroredRingBuffer) (off : Nat) (bytes : List Byte) : Option MirroredRingBuffer :=
  if off + bytes.length ≤ 2 * b.size then
    some { b with mem := Mirror.poke b.size b.mem off bytes }
  else none

theorem read_of_le {b : MirroredRingBuffer} {off len : Nat} (h : off + len ≤ 2 * b.size) :
    b.read off len = some (Mirror.peek b.size b.mem off len) :=
  if_pos h

theorem write_of_le {b : MirroredRingBuffer} {off : Nat} {bytes : List Byte}
    (h : off + bytes.length ≤ 2 * b.size) :
    b.write off bytes = some { b with mem := Mirror.poke b.size b.mem off bytes } :=
  if_pos h

end MirroredRingBuffer

end IocpServer
