import IocpServer.Session.Session

/-!
# Session — Window

The two positions of an `OverlappedEx` as a window onto its ring: the bytes from `recvPos_` up to
`sendPos_`.  Between two calls the positions are `Settled`; while a call takes bytes off they only
`Span`, and `wrap` brings them back without a change to the window.
-/

namespace IocpServer.OverlappedEx

/-- The bytes from `recvPos_` up to `sendPos_`. -/
def window (ov : OverlappedEx) : List Byte :=
  Mirror.peek ov.buffer.size ov.buffer.mem ov.recvPos (ov.sendPos - ov.recvPos)

/-- The positions of a ring of `kBufferSize` bytes between two calls. -/
structure Settled (ov : OverlappedEx) : Prop where
  size : ov.buffer.size = Config.kBufferSize
  low : ov.recvPos < ov.buffer.size
  le : ov.recvPos ≤ ov.sendPos
  fits : ov.sendPos ≤ ov.recvPos + ov.buffer.size

/-- The positions inside a call, when `recvPos_` may have passed the end of the buffer. -/
structure Spans (ov : OverlappedEx) : Prop where
  size : ov.buffer.size = Config.kBufferSize
  le : ov.recvPos ≤ ov.sendPos
  fits : ov.sendPos ≤ ov.recvPos + ov.buffer.size
  top : ov.sendPos < 2 * ov.buffer.size

/-- Both positions at 0 and nothing in the window. -/
structure Empty (ov : OverlappedEx) : Prop where
  size : ov.buffer.size = Config.kBufferSize
  recvPos : ov.recvPos = 0
  sendPos : ov.sendPos = 0

variable {ov : OverlappedEx}

theorem reset_empty (h : ov.buffer.size = Config.kBufferSize) : ov.reset.Empty := ⟨h, rfl, rfl⟩

theorem Empty.settled (h : ov.Empty) : ov.Settled := by
  have hn : ov.buffer.size = 65536 := h.size
  have h₁ := h.recvPos
  have h₂ := h.sendPos
  exact ⟨hn, by omega, by omega, by omega⟩

theorem Empty.window (h : ov.Empty) : ov.window = [] := by
  rw [OverlappedEx.window, h.recvPos, h.sendPos, Nat.sub_self, Mirror.peek_zero]

theorem Settled.spans (h : ov.Settled) : ov.Spans := by
  have hlow := h.low
  have hfits := h.fits
  exact ⟨h.size, h.le, hfits, by omega⟩

@[simp] theorem window_length : ov.window.length = ov.sendPos - ov.recvPos := Mirror.peek_length ..

theorem Spans.available (h : ov.Spans) : ov.available = ov.window.length := by
  have hn : ov.buffer.size = 65536 := h.size
  have htop := h.top
  rw [window_length, OverlappedEx.available, sub64_of_le h.le (by omega)]

/-- A read at `recvPos_` is the start of the window. -/
theorem Spans.read (h : ov.Spans) {len : Nat} (hlen : len ≤ ov.window.length) :
    ov.buffer.read ov.recvPos len = some (ov.window.take len) := by
  have hle := h.le
  have htop := h.top
  rw [window_length] at hlen
  rw [MirroredRingBuffer.read_of_le (by omega), OverlappedEx.window, Mirror.peek_take _ _ hlen]

/-- Bytes taken off at `recvPos_`. -/
theorem Spans.advance (h : ov.Spans) {len : Nat} (hlen : len ≤ ov.window.length) :
    ({ ov with recvPos := u64 (ov.recvPos + len) } : OverlappedEx).Spans ∧
      ({ ov with recvPos := u64 (ov.recvPos + len) } : OverlappedEx).window = ov.window.drop len := by
  have hn : ov.buffer.size = 65536 := h.size
  have hle := h.le
  have htop := h.top
  have hfits := h.fits
  rw [window_length] at hlen
  rw [u64_of_lt (by omega)]
  constructor
  · exact ⟨hn, show ov.recvPos + len ≤ ov.sendPos by omega,
      show ov.sendPos ≤ ov.recvPos + len + ov.buffer.size by omega, htop⟩
  · rw [OverlappedEx.window, OverlappedEx.window, Mirror.peek_drop _ _ hlen, Nat.sub_sub]

/-- **Bytes stored at `sendPos_`.**  They lie in the two mappings and extend the window, when there
is room for them. -/
theorem Settled.extend (h : ov.Settled) {xs : List Byte}
    (hroom : ov.window.length + xs.length ≤ ov.buffer.size) :
    ∃ buffer, ov.buffer.write ov.sendPos xs = some buffer ∧
      ({ ov with buffer, sendPos := u64 (ov.sendPos + xs.length) } : OverlappedEx).Settled ∧
      ({ ov with buffer, sendPos := u64 (ov.sendPos + xs.length) } : OverlappedEx).window =
        ov.window ++ xs := by
  have hn : ov.buffer.size = 65536 := h.size
  have hlow := h.low
  have hle := h.le
  have hfits := h.fits
  rw [window_length] at hroom
  rw [u64_of_lt (by omega)]
  refine ⟨_, MirroredRingBuffer.write_of_le (by omega), ?_, ?_⟩
  · exact ⟨hn, hlow, show ov.recvPos ≤ ov.sendPos + xs.length by omega,
      show ov.sendPos + xs.length ≤ ov.recvPos + ov.buffer.size by omega⟩
  · -- the write starts where the window ends and does not reach round to its start
    have happ := Mirror.peek_poke_append (n := ov.buffer.size) ov.buffer.mem (a := ov.recvPos) xs
      hroom
    have hend : ov.recvPos + (ov.sendPos - ov.recvPos) = ov.sendPos := by omega
    have hlen : ov.sendPos + xs.length - ov.recvPos = ov.sendPos - ov.recvPos + xs.length := by omega
    rw [hend] at happ
    rw [OverlappedEx.window, OverlappedEx.window, hlen]
    exact happ

/-- The wrap settles the positions and leaves the window as it is. -/
theorem Spans.wrap (h : ov.Spans) : ov.wrap.Settled ∧ ov.wrap.window = ov.window := by
  have hn : ov.buffer.size = 65536 := h.size
  have hle := h.le
  have htop := h.top
  have hfits := h.fits
  unfold OverlappedEx.wrap
  split_ifs with hw
  · rw [sub64_of_le hw (by omega), sub64_of_le (by omega) (by omega)]
    constructor
    · exact ⟨hn, show ov.recvPos - ov.buffer.size < ov.buffer.size by omega,
        show ov.recvPos - ov.buffer.size ≤ ov.sendPos - ov.buffer.size by omega,
        show ov.sendPos - ov.buffer.size ≤ ov.recvPos - ov.buffer.size + ov.buffer.size by omega⟩
    · -- the window starts one turn earlier, at the same cells
      have hturn := Mirror.peek_turn (n := ov.buffer.size) ov.buffer.mem
        (ov.recvPos - ov.buffer.size) (ov.sendPos - ov.recvPos)
      rw [Nat.sub_add_cancel hw] at hturn
      have hlen : ov.sendPos - ov.buffer.size - (ov.recvPos - ov.buffer.size) =
          ov.sendPos - ov.recvPos := by omega
      rw [OverlappedEx.window, OverlappedEx.window, hlen]
      exact hturn.symm
  · exact ⟨⟨hn, by omega, hle, hfits⟩, rfl⟩

/-- The wrap changes the positions only. -/
theorem wrap_buffer (ov : OverlappedEx) : ov.wrap.buffer = ov.buffer := by
  unfold OverlappedEx.wrap
  split_ifs <;> rfl

end IocpServer.OverlappedEx
