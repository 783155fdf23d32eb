import IocpServer.Common.MirroredRingBuffer
import IocpServer.Pool.SparseSet

/-!
# Session — Session

`Server/OverlappedEx.hpp` and the receive and send paths of `Server/Session.cpp`.

A `SharedPoolPtr<Session>` is its handle, `none` when it is empty.  What a function asks of the
rest of the server is an argument: `ptr` is the result of `sessionManager_->GetSession(handle_)`,
`queued` is whether `WSARecv` or `WSASend` succeeded or is pending, and `post` stands for
`AcquirePacket` and `PostTask`, acting on the rest of the server `σ`.  A result is `none` on an
access outside the ring buffer's mappings, a failed assertion, or a failed `post`.
-/

namespace IocpServer

/-- `WSABUF`: an offset from `GetBuffer()` and a length. -/
structure WsaBuf where
  buf : Nat
  len : Nat
  deriving DecidableEq, Repr

/-- `OverlappedEx`. -/
structure OverlappedEx where
  ioType : IoType
  wsaBuf : WsaBuf
  buffer : MirroredRingBuffer
  sessionPtr : Option Nat
  recvPos : Nat
  sendPos : Nat

/-- `OverlappedEx::Reset`. -/
def OverlappedEx.reset (ov : OverlappedEx) : OverlappedEx where
  ioType := .kNone
  wsaBuf := ⟨0, 0⟩
  buffer := ov.buffer.reset
  sessionPtr := none
  recvPos := 0
  sendPos := 0

/-- `Session`. -/
structure Session where
  recvOv : OverlappedEx
  sendOv : OverlappedEx
  disconnectOv : OverlappedEx
  handle : Nat
  accountId : Int
  isSending : Bool

/-- A session no connection has used yet. -/
def Session.fresh : Session :=
  let ov : OverlappedEx :=
    ⟨.kNone, ⟨0, 0⟩, ⟨Config.kBufferSize, fun _ => 0⟩, none, 0, 0⟩
  ⟨ov, ov, ov, kInvalidHandle, 0, false⟩

/-- What a `Register` function comes to: the session, the value returned, and the buffer handed to
Winsock, if it got that far. -/
structure Registered where
  session : Session
  ok : Bool
  io : Option WsaBuf

/-- `sendPos_ - recvPos_`. -/
def OverlappedEx.available (ov : OverlappedEx) : Nat := sub64 ov.sendPos ov.recvPos

/-- The wrap of `OnRecv` and `OnSend`: both positions go back by one turn once the first has passed
the end of the buffer. -/
def OverlappedEx.wrap (ov : OverlappedEx) : OverlappedEx :=
  if ov.buffer.size ≤ ov.recvPos then
    { ov with
      recvPos := sub64 ov.recvPos ov.buffer.size
      sendPos := sub64 ov.sendPos ov.buffer.size }
  else ov

namespace Session

variable {σ : Type}

/-- `Session::Init`, the last thing `Acquire` does to a slot before its `handle_` is stored. -/
def init (s : Session) : Session :=
  { s with
    recvOv := s.recvOv.reset
    sendOv := s.sendOv.reset
    disconnectOv := s.disconnectOv.reset
    isSending := false
    handle := kInvalidHandle }

/-! ### Receiving -/

/-- `RegisterRecv`. -/
def registerRecv (s : Session) (ptr : Option Nat) (queued : Bool) : Registered :=
  let len := u32 (u64 (sub64 s.recvOv.buffer.size s.recvOv.sendPos + s.recvOv.recvPos))
  if len = 0 then
    -- "recv buffer overflow detected"
    ⟨{ s with recvOv.wsaBuf := { s.recvOv.wsaBuf with len } }, false, none⟩
  else
    let wsaBuf : WsaBuf := ⟨s.recvOv.sendPos, len⟩
    ⟨{ s with recvOv := { s.recvOv with
        ioType := .kRecv, wsaBuf, sessionPtr := if queued then ptr else none } }, queued, some wsaBuf⟩

/-- One pass of the loop in `OnRecv`: the loop is left with the value `true` on `break` and `false`
on `return false`. -/
def drainBody (post : σ → List Byte → Option σ) :
    OverlappedEx × σ → Option (Loop.Pass (OverlappedEx × σ) (OverlappedEx × σ × Bool))
  | (ov, env) =>
    let availableData := ov.available
    if availableData < kHeaderSize then
      some (.leave (ov, env, true))
    else do
      let header ← ov.buffer.read ov.recvPos kHeaderSize
      let size := headerSize header
      if size < kHeaderSize ∨ ov.buffer.size ≤ size then
        -- "Invalid packet size"
        return .leave (ov, env, false)
      else if availableData < size then
        return .leave (ov, env, true)
      else
        let frame ← ov.buffer.read ov.recvPos size
        let env ← post env frame
        return .again ({ ov with recvPos := u64 (ov.recvPos + size) }, env)

/-- `OnRecv`, with at most `fuel` passes through its loop. -/
def onRecv (post : σ → List Byte → Option σ) (fuel : Nat) (s : Session) (env : σ)
    (bytesTransferred : Nat) (ptr : Option Nat) (queued : Bool) : Option (Registered × σ) := do
  let ov := { s.recvOv with sendPos := u64 (s.recvOv.sendPos + bytesTransferred) }
  let (ov, env, drained) ← Loop.run (drainBody post) fuel (ov, env)
  if drained then
    return (registerRecv { s with recvOv := ov.wrap } ptr queued, env)
  else
    return (⟨{ s with recvOv := ov }, false, none⟩, env)

/-! ### Sending -/

/-- `RegisterSend`. -/
def registerSend (s : Session) (ptr : Option Nat) (queued : Bool) : Option Registered :=
  if s.isSending then
    let wsaBuf : WsaBuf := ⟨s.sendOv.recvPos, u32 s.sendOv.available⟩
    some ⟨{ s with sendOv := { s.sendOv with
      ioType := .kSend, wsaBuf, sessionPtr := if queued then ptr else none } }, queued, some wsaBuf⟩
  else none

/-- `OnSend`. -/
def onSend (s : Session) (bytesTransferred : Nat) (ptr : Option Nat) (queued : Bool) :
    Option Registered :=
  if s.isSending then
    let ov := { s.sendOv with recvPos := u64 (s.sendOv.recvPos + bytesTransferred) }.wrap
    let s := { s with sendOv := ov }
    if ov.recvPos = ov.sendPos then
      some ⟨{ s with isSending := false }, true, none⟩
    else
      registerSend s ptr queued
  else none

/-- `SendPacket`, of the packet at the start of the memory `header`. -/
def sendPacket (s : Session) (header : List Byte) (ptr : Option Nat) (queued : Bool) :
    Option Registered :=
  let size := headerSize header
  if s.sendOv.buffer.size < u64 (s.sendOv.available + size) then
    -- "Send buffer overflow detected"
    some ⟨s, false, none⟩
  else if header.length < size then
    none
  else do
    let buffer ← s.sendOv.buffer.write s.sendOv.sendPos (header.take size)
    let s := { s with sendOv :=
      { s.sendOv with buffer, sendPos := u64 (s.sendOv.sendPos + size) } }
    if s.isSending then
      return ⟨s, true, none⟩
    else
      registerSend { s with isSending := true } ptr queued

end Session

end IocpServer
