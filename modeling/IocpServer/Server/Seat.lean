import IocpServer.Pool.References
import IocpServer.Server.Engine

/-!
# Server — Seat

What a step of the engine does to one slot.  A `Seat` is what the engine stores about a slot: its
cell in the pool and its reference count, the pointer in `sessionPtrs_`, and the session.
`SeatStep w v act is is' v'` lists what may become of it, the conditions under which it does, and the
instructions about the slot that are executed and that take their place.
-/

namespace IocpServer

/-- The slot an instruction is about. -/
def Instr.slot : Instr → Option Nat
  | .load | .cas _ | .rollback | .acquire | .lookup _ _ => none
  | .setListener g | .init g | .construct g | .enter g | .countDown g | .drop g | .push g =>
      some (slotIndex g)
  | .give w | .register w _ | .assign w _ _ | .post w _ | .complete w _ _ _ | .handleError w _
  | .failed w _ _ | .dispatch w _ _ | .dispatched w _ _ _ | .handleAccept w | .connect w _
  | .connectSession w _ | .sendPacket w _ | .onSend w | .onRecv w | .disconnect w | .setState w
  | .reset w | .account w | .accountEnd w | .logIn w | .logOut w | .setAccountId w _
  | .taskEnd w => some w
  | .execute t => some t.slot

/-! ### Sessions -/

namespace Conn

/-- `Session::Init`, when its `OverlappedEx` have no pointers. -/
def init (c : Conn) : Conn :=
  { c with
    ov := fun x => ⟨.kNone, none, (c.ov x).ops⟩
    listener := false, isSending := false, handle := kInvalidHandle }

def setType (c : Conn) (x : Ov) (ioType : IoType) : Conn :=
  { c with ov := Function.update c.ov x { c.ov x with ioType } }

def setPtr (c : Conn) (x : Ov) (sessionPtr : Option Nat) : Conn :=
  { c with ov := Function.update c.ov x { c.ov x with sessionPtr } }

/-- One more operation, queued. -/
def queue (c : Conn) (x : Ov) : Conn :=
  { c with ov := Function.update c.ov x { c.ov x with ops := (c.ov x).ops + 1 } }

/-- One less, delivered. -/
def deliver (c : Conn) (x : Ov) : Conn :=
  { c with ov := Function.update c.ov x { c.ov x with ops := (c.ov x).ops - 1 } }

/-- `sendCs_` is left at the end of `SendPacket` and `OnSend`. -/
def unlock (c : Conn) (x : Ov) : Conn :=
  { c with sendCs := if x = .send then false else c.sendCs }

end Conn

/-- One slot. -/
structure Seat where
  cell : SparseSet.Cell
  count : Nat
  entry : Option Nat
  conn : Conn
  life : Life
  acquired : Nat
  pushed : Nat

namespace Seat

/-- The current handle. -/
def handle (v : Seat) (w : Nat) : Nat := packHandle v.cell.generation w

/-- The count after a copy of `p`. -/
def shared (v : Seat) (p : Option Nat) : Nat := p.elim v.count fun _ => u64 (v.count + 1)

/-- The count after the release of `p`. -/
def freed (v : Seat) (p : Option Nat) : Nat := p.elim v.count fun _ => sub64 v.count 1

/-- The rest of `ReleaseRef`. -/
def last (v : Seat) (p : Option Nat) : List Instr :=
  p.elim [] fun g => if v.count = 1 then [.push g] else []

/-- `DecrementPendingAccepts` is called for a completion that is marked as an accept. -/
def accepts (v : Seat) (x : Ov) (g : Nat) : List Instr :=
  if (v.conn.ov x).ioType = .kAccept then [.countDown g] else []

end Seat

/-- What happens to a slot. -/
inductive Act where
  | pop
  | run (i : Instr) (o : Outcome)
  | lookup (call : Call)
  | task (t : Task)
  | accepted
  | disconnected
  | dequeue (x : Ov) (ok zero : Bool)

/-- What a caller does with its pointer. -/
def Call.body (w : Nat) : Call → List Instr
  | .send => [.sendPacket w .plain]
  | .connect => [.connect w false]
  | .disconnect => [.disconnect w]

/-- The switch of `Dispatch`. -/
inductive Handler (w : Nat) : Bool → IoType → Instr → Prop where
  | accept {zero : Bool} : Handler w zero .kAccept (.handleAccept w)
  | disconnect {zero : Bool} : Handler w zero .kDisconnect (.reset w)
  | recv : Handler w false .kRecv (.onRecv w)
  | send : Handler w false .kSend (.onSend w)
  | recvZero : Handler w true .kRecv (.disconnect w)
  | sendZero : Handler w true .kSend (.disconnect w)
  | unknown {zero : Bool} : Handler w zero .kNone (.disconnect w)

/-- What a task does to the session it was posted for. -/
def TaskKind.body (w : Nat) : TaskKind → List Instr
  | .reply => [.account w, .accountEnd w, .sendPacket w .plain]
  | .login => [.logIn w, .sendPacket w .plain]
  | .logout => [.sendPacket w .plain, .logOut w]
  | .broadcast => []

open Instr in
/-- The steps of the slot `w`. -/
inductive SeatStep (w : Nat) (v : Seat) : Act → List Instr → List Instr → Seat → Prop where
  | pop (h0 : v.cell.state = 0) :
      SeatStep w v .pop [] [.init (v.handle w)]
        { v with cell := v.cell.move 1, life := ⟨0, 0, 0, 0⟩, acquired := v.acquired + 1 }
  | init {g : Nat} {o : Outcome} :
      SeatStep w v (.run (.init g) o) [.init g] [.construct g]
        { v with conn := v.conn.init, count := 0 }
  | construct {g : Nat} {o : Outcome} :
      SeatStep w v (.run (.construct g) o) [.construct g] [.enter g]
        { v with count := u64 (v.count + 1) }
  | enter {g : Nat} {o : Outcome} (he : v.entry = none) :
      SeatStep w v (.run (.enter g) o) [.enter g] [.give w]
        { v with
          conn := { v.conn with handle := g }, entry := some g,
          life := { v.life with entered := v.life.entered + 1 } }
  | giveNone {o : Outcome} (he : v.entry = none) :
      SeatStep w v (.run (.give w) o) [.give w] [] v
  | give {g : Nat} {o : Outcome} (he : v.entry = some g) :
      SeatStep w v (.run (.give w) o) [.give w] [.register w (.accept g)]
        { v with count := u64 (v.count + 1) }
  | overflow {p : Purpose} {o : Outcome} (hp : p.ioType = .kRecv) (ho : o.ok = false) :
      SeatStep w v (.run (.register w p) o) [.register w p] (p.after w false) v
  | register {p : Purpose} {o : Outcome} (hp : p ≠ .disconnect) :
      SeatStep w v (.run (.register w p) o) [.register w p] [.assign w p v.entry]
        { v with conn := v.conn.setType p.ov p.ioType, count := v.shared v.entry }
  | registerDisconnect {o : Outcome} :
      SeatStep w v (.run (.register w .disconnect) o) [.register w .disconnect]
        [.assign w .disconnect v.entry]
        { v with
          conn := v.conn.setType .disconnect .kDisconnect, count := v.shared v.entry,
          life := { v.life with registers := v.life.registers + 1 } }
  | assign {p : Purpose} {session : Option Nat} {o : Outcome} :
      SeatStep w v (.run (.assign w p session) o) [.assign w p session]
        (v.last (v.conn.ov p.ov).sessionPtr ++ [.post w p])
        { v with
          conn := v.conn.setPtr p.ov session, count := v.freed (v.conn.ov p.ov).sessionPtr }
  | acceptPosted {g : Nat} {o : Outcome} (ho : o.ok = true ∨ o.pending = true) :
      SeatStep w v (.run (.post w (.accept g)) o) [.post w (.accept g)] [.setListener g, .drop g]
        { v with conn := { v.conn.queue .recv with link := .accepting } }
  | acceptFailed {g : Nat} {o : Outcome} (ho : ¬ (o.ok = true ∨ o.pending = true)) :
      SeatStep w v (.run (.post w (.accept g)) o) [.post w (.accept g)] [.setListener g, .drop g] v
  | disconnectPosted {o : Outcome} (ho : o.ok = true ∨ o.pending = true) :
      SeatStep w v (.run (.post w .disconnect) o) [.post w .disconnect] []
        { v with conn := v.conn.queue .disconnect }
  | disconnectFailed {o : Outcome} (ho : ¬ (o.ok = true ∨ o.pending = true)) :
      SeatStep w v (.run (.post w .disconnect) o) [.post w .disconnect] [] v
  | posted {p : Purpose} {o : Outcome} (hp : p.ioType = .kRecv ∨ p.ioType = .kSend)
      (ho : o.ok = true) (hl : v.conn.link = .connected) :
      SeatStep w v (.run (.post w p) o) [.post w p] (p.after w true)
        { v with conn := (v.conn.queue p.ov).unlock p.ov }
  | notPosted {p : Purpose} {o : Outcome} (hp : p.ioType = .kRecv ∨ p.ioType = .kSend)
      (ho : o.ok = false) :
      SeatStep w v (.run (.post w p) o) [.post w p]
        (v.last (v.conn.ov p.ov).sessionPtr ++ p.after w false)
        { v with
          conn := (v.conn.setPtr p.ov none).unlock p.ov,
          count := v.freed (v.conn.ov p.ov).sessionPtr }
  | setListener {g : Nat} {o : Outcome} :
      SeatStep w v (.run (.setListener g) o) [.setListener g] []
        { v with conn := { v.conn with listener := true } }
  | complete {x : Ov} {zero : Bool} {g : Nat} {o : Outcome}
      (hg : (v.conn.ov x).sessionPtr = some g) :
      SeatStep w v (.run (.complete w x true zero) o) [.complete w x true zero]
        (v.accepts x g ++ [.dispatch w x zero, .drop g]) { v with count := u64 (v.count + 1) }
  | completeError {x : Ov} {zero : Bool} {g : Nat} {o : Outcome}
      (hg : (v.conn.ov x).sessionPtr = some g) :
      SeatStep w v (.run (.complete w x false zero) o) [.complete w x false zero]
        (v.accepts x g ++ [.handleError w x, .drop g]) { v with count := u64 (v.count + 1) }
  | countDown {g : Nat} {o : Outcome} (hl : v.conn.listener = true) :
      SeatStep w v (.run (.countDown g) o) [.countDown g] [] v
  | handleDisconnectError {x : Ov} {g : Nat} {o : Outcome}
      (hg : (v.conn.ov x).sessionPtr = some g) (ht : (v.conn.ov x).ioType = .kDisconnect) :
      SeatStep w v (.run (.handleError w x) o) [.handleError w x] [.reset w, .drop g]
        { v with count := u64 (v.count + 1) }
  | handleError {x : Ov} {g : Nat} {o : Outcome} (hg : (v.conn.ov x).sessionPtr = some g)
      (ht : (v.conn.ov x).ioType ≠ .kDisconnect) :
      SeatStep w v (.run (.handleError w x) o) [.handleError w x] [.failed w x g, .drop g]
        { v with count := u64 (v.count + 1) }
  | failed {x : Ov} {g : Nat} {o : Outcome} :
      SeatStep w v (.run (.failed w x g) o) [.failed w x g]
        (v.last (v.conn.ov x).sessionPtr ++ [.disconnect w])
        { v with conn := v.conn.setPtr x none, count := v.freed (v.conn.ov x).sessionPtr }
  | dispatch {x : Ov} {zero : Bool} {g : Nat} {o : Outcome}
      (hg : (v.conn.ov x).sessionPtr = some g) :
      SeatStep w v (.run (.dispatch w x zero) o) [.dispatch w x zero]
        [.dispatched w x g zero, .drop g] { v with count := u64 (v.count + 1) }
  | dispatched {x : Ov} {zero : Bool} {g : Nat} {i : Instr} {o : Outcome}
      (hi : Handler w zero (v.conn.ov x).ioType i) :
      SeatStep w v (.run (.dispatched w x g zero) o) [.dispatched w x g zero]
        (v.last (v.conn.ov x).sessionPtr ++ [i])
        { v with conn := v.conn.setPtr x none, count := v.freed (v.conn.ov x).sessionPtr }
  | handleAccept {o : Outcome} (hl : v.conn.listener = true) (ho : o.ok = true) :
      SeatStep w v (.run (.handleAccept w) o) [.handleAccept w] [.connect w true] v
  | notAccepted {o : Outcome} (hl : v.conn.listener = true) (ho : o.ok = false) :
      SeatStep w v (.run (.handleAccept w) o) [.handleAccept w] [.disconnect w] v
  | connect {k : Bool} {o : Outcome} (hfree : v.conn.connectCs = false) (hst : v.cell.state = 1) :
      SeatStep w v (.run (.connect w k) o) [.connect w k] [.connectSession w k]
        { v with conn := { v.conn with connectCs := true } }
  | connectLate {k : Bool} {o : Outcome} (hfree : v.conn.connectCs = false)
      (hst : v.cell.state ≠ 1) :
      SeatStep w v (.run (.connect w k) o) [.connect w k]
        (Purpose.after w (.firstRecv k) false) v
  | connectSession {k : Bool} {o : Outcome} :
      SeatStep w v (.run (.connectSession w k) o) [.connectSession w k]
        [.sendPacket w (.welcome k)]
        { v with
          cell := v.cell.move 2, conn := { v.conn with connectCs := false },
          life := { v.life with connects := v.life.connects + 1 } }
  | sendFull {p : Purpose} {o : Outcome} (hfree : v.conn.sendCs = false) (ho : o.ok = false) :
      SeatStep w v (.run (.sendPacket w p) o) [.sendPacket w p] (p.after w false) v
  | sendBusy {p : Purpose} {o : Outcome} (hfree : v.conn.sendCs = false) (ho : o.ok = true)
      (hs : v.conn.isSending = true) :
      SeatStep w v (.run (.sendPacket w p) o) [.sendPacket w p] (p.after w true) v
  | sendIdle {p : Purpose} {o : Outcome} (hfree : v.conn.sendCs = false) (ho : o.ok = true)
      (hs : v.conn.isSending = false) :
      SeatStep w v (.run (.sendPacket w p) o) [.sendPacket w p] [.register w p]
        { v with conn := { v.conn with isSending := true, sendCs := true } }
  | sent {o : Outcome} (hfree : v.conn.sendCs = false) (hs : v.conn.isSending = true)
      (ho : o.ok = true) :
      SeatStep w v (.run (.onSend w) o) [.onSend w] []
        { v with conn := { v.conn with isSending := false } }
  | sentPart {o : Outcome} (hfree : v.conn.sendCs = false) (hs : v.conn.isSending = true)
      (ho : o.ok = false) :
      SeatStep w v (.run (.onSend w) o) [.onSend w] [.register w .nextSend]
        { v with conn := { v.conn with sendCs := true } }
  | onRecv {o : Outcome} (ho : o.ok = true) :
      SeatStep w v (.run (.onRecv w) o) [.onRecv w] [.register w .nextRecv] v
  | received {o : Outcome} (ho : o.ok = false) :
      SeatStep w v (.run (.onRecv w) o) [.onRecv w] [.disconnect w] v
  | disconnect {o : Outcome} (hfree : v.conn.connectCs = false)
      (hst : v.cell.state = 1 ∨ v.cell.state = 2) :
      SeatStep w v (.run (.disconnect w) o) [.disconnect w] [.setState w]
        { v with conn := { v.conn with connectCs := true } }
  | disconnectLate {o : Outcome} (hfree : v.conn.connectCs = false)
      (hst : ¬ (v.cell.state = 1 ∨ v.cell.state = 2)) :
      SeatStep w v (.run (.disconnect w) o) [.disconnect w] [] v
  | setState {o : Outcome} :
      SeatStep w v (.run (.setState w) o) [.setState w] [.register w .disconnect]
        { v with cell := v.cell.move 3, conn := { v.conn with connectCs := false } }
  | reset {o : Outcome} :
      SeatStep w v (.run (.reset w) o) [.reset w] (v.last v.entry)
        { v with
          count := v.freed v.entry, entry := none,
          life := { v.life with resets := v.life.resets + 1 } }
  | lookup {g : Nat} {call : Call} (he : v.entry = some g) :
      SeatStep w v (.lookup call) [] (call.body w ++ [.drop g])
        { v with count := u64 (v.count + 1) }
  | drop {g : Nat} {o : Outcome} :
      SeatStep w v (.run (.drop g) o) [.drop g] (v.last (some g))
        { v with count := v.freed (some g) }
  | push {g : Nat} {o : Outcome} :
      SeatStep w v (.run (.push g) o) [.push g] []
        { v with cell := v.cell.recycle, pushed := v.pushed + 1 }
  | execute {t : Task} {o : Outcome} :
      SeatStep w v (.run (.execute t) o) [.execute t] (t.kind.body w) v
  | account {o : Outcome} : SeatStep w v (.run (.account w) o) [.account w] [] v
  | accountEnd {o : Outcome} : SeatStep w v (.run (.accountEnd w) o) [.accountEnd w] [] v
  | logIn {o : Outcome} :
      SeatStep w v (.run (.logIn w) o) [.logIn w]
        [.account w, .accountEnd w, .setAccountId w v.conn.handle] v
  | logOut {o : Outcome} :
      SeatStep w v (.run (.logOut w) o) [.logOut w] [.setAccountId w v.conn.handle] v
  | setAccountId {handle : Nat} {o : Outcome} :
      SeatStep w v (.run (.setAccountId w handle) o) [.setAccountId w handle] [] v
  | taskEnd {o : Outcome} : SeatStep w v (.run (.taskEnd w) o) [.taskEnd w] [] v
  | task {t : Task} : SeatStep w v (.task t) [] [.execute t, .taskEnd w] v
  | accepted (hl : v.conn.link = .accepting) :
      SeatStep w v .accepted [] [] { v with conn := { v.conn with link := .connected } }
  | disconnected (ho : 0 < (v.conn.ov .disconnect).ops) :
      SeatStep w v .disconnected [] [] { v with conn := { v.conn with link := .closed } }
  | dequeue {x : Ov} {ok zero : Bool} (ho : 0 < (v.conn.ov x).ops)
      (hl : x = .disconnect → v.conn.link = .closed) :
      SeatStep w v (.dequeue x ok zero) [] [.complete w x ok zero]
        { v with conn := v.conn.deliver x }

end IocpServer
