import IocpServer.Packet.Handler
import IocpServer.Support.Total

/-!
# Server — Engine

The accept loop, the sessions' I/O and the packet tasks, by any number of threads at once:
`Server/Listener.cpp`, `Server/IocpCore.cpp`, `Server/SessionManager.cpp`, and the control flow of
`Server/Session.cpp` and `Server/PacketHandler.cpp`.

A thread is the list of the instructions it has still to execute, the destructors of its local
`SharedPoolPtr`s among them; an instruction takes one atomic step and may put others in its place.
A copy, an assignment and a reset of a `SharedPoolPtr` are taken as one step each, `pool_`, `handle_`
and the reference count together, except that a last reference is pushed back in a step of its own:
what a thread that copies a pointer sees while another one resets it is not modelled.  The critical
sections of `cs_` hold one access to the set each.  The calls of `AccountManager` begin and return in
steps of their own.

What buffers, sockets and clients decide is an `Outcome`; Winsock queues the completion of an
operation when it succeeds or is pending.  `WSARecv` and `WSASend` fail on a socket that is not
connected, or whose `DisconnectEx` has completed.  Accesses through null pointers and failed
assertions have no next state.  There is one `Listener`, so `listener_` is null or not.  Packets are
left out: every `AcquirePacket` is taken to find a block, and every packet to fit one.
-/

namespace IocpServer

/-- The three `OverlappedEx` of a session. -/
inductive Ov where
  | recv
  | send
  | disconnect
  deriving DecidableEq, Repr

/-- `OverlappedEx`, and how many operations on it are in flight or not delivered yet. -/
structure Io where
  ioType : IoType
  sessionPtr : Option Nat
  ops : Nat
  deriving DecidableEq, Repr

/-- The socket of a session: not connected, or with its `DisconnectEx` completed; with an `AcceptEx`
posted; or connected. -/
inductive Link where
  | closed
  | accepting
  | connected
  deriving DecidableEq, Repr

/-- `Session`, as far as the engine is concerned.  `connectCs` and `sendCs` say whether a thread is
inside. -/
structure Conn where
  ov : Ov → Io
  handle : Nat
  listener : Bool
  isSending : Bool
  connectCs : Bool
  sendCs : Bool
  link : Link

/-- The session of a slot that has not been used. -/
def Conn.fresh : Conn :=
  ⟨fun _ => ⟨.kNone, none, 0⟩, kInvalidHandle, false, false, false, false, .closed⟩

/-- What a `Register` function is called for: by `PostAccept` with the pointer `g`; by `Disconnect`;
by `Connect`, `OnRecv`, `SendPacket` from `Connect`, `SendPacket` from a sender, and `OnSend`.
`Connect` is called by `HandleAccept` or not. -/
inductive Purpose where
  | accept (g : Nat)
  | disconnect
  | firstRecv (accepted : Bool)
  | nextRecv
  | welcome (accepted : Bool)
  | plain
  | nextSend
  deriving DecidableEq, Repr

/-- The `OverlappedEx` used. -/
def Purpose.ov : Purpose → Ov
  | .accept _ | .firstRecv _ | .nextRecv => .recv
  | .welcome _ | .plain | .nextSend => .send
  | .disconnect => .disconnect

/-- Its `ioType_`. -/
def Purpose.ioType : Purpose → IoType
  | .accept _ => .kAccept
  | .firstRecv _ | .nextRecv => .kRecv
  | .welcome _ | .plain | .nextSend => .kSend
  | .disconnect => .kDisconnect

/-- What a thread does with a pointer from `GetSession`: `SendToSession`, or a call by any other
holder. -/
inductive Call where
  | send
  | connect
  | disconnect
  deriving DecidableEq, Repr

/-- What a packet makes its task do: `RegisterAccount` and a reply through the raw session pointer,
`LogInSession` or `LogOutSession` and a reply, or broadcast. -/
inductive TaskKind where
  | reply
  | login
  | logout
  | broadcast
  deriving DecidableEq, Repr

/-- A task posted by `OnRecv`: the slot of the session it captures, and that session's handle when
the task was posted. -/
structure Task where
  slot : Nat
  handle : Nat
  kind : TaskKind
  deriving DecidableEq, Repr

/-- An instruction.  `w` is the slot of a session, `g` a pointer to one, `x` an `OverlappedEx`. -/
inductive Instr where
  /-- `PostAccept`: the load of `pendingAccepts_`. -/
  | load
  /-- `PostAccept`: the compare-exchange. -/
  | cas (current : Nat)
  /-- `PostAccept`: `pendingAccepts_.fetch_sub(1)`. -/
  | rollback
  /-- `PostAccept`: `sessionPtr->SetListener(this)`. -/
  | setListener (g : Nat)
  /-- `Acquire`: `Pop`. -/
  | acquire
  /-- `Acquire`: `Slot::Init`. -/
  | init (g : Nat)
  /-- `Acquire`: `SharedPoolPtr(this, handle)`. -/
  | construct (g : Nat)
  /-- `CreateSession`: the session's fields, and the move to `sessionPtrs_`. -/
  | enter (g : Nat)
  /-- `CreateSession`: `return sessionPtrs_[idx]`. -/
  | give (w : Nat)
  /-- A `Register` function, to `GetSession`. -/
  | register (w : Nat) (p : Purpose)
  /-- A `Register` function: `sessionPtr_ = …`. -/
  | assign (w : Nat) (p : Purpose) (session : Option Nat)
  /-- A `Register` function: the Winsock call. -/
  | post (w : Nat) (p : Purpose)
  /-- `WorkerThread`: the copy of `sessionPtr_`, and what `ioType_` says. -/
  | complete (w : Nat) (x : Ov) (ok zero : Bool)
  /-- `GetListener()->DecrementPendingAccepts()`. -/
  | countDown (g : Nat)
  /-- `HandleError`. -/
  | handleError (w : Nat) (x : Ov)
  /-- `HandleError`: `sessionPtr_.Reset()`. -/
  | failed (w : Nat) (x : Ov) (g : Nat)
  /-- `Dispatch`. -/
  | dispatch (w : Nat) (x : Ov) (zero : Bool)
  /-- `Dispatch`: `sessionPtr_.Reset()`, and the switch. -/
  | dispatched (w : Nat) (x : Ov) (g : Nat) (zero : Bool)
  /-- `Listener::HandleAccept`, to `Connect`. -/
  | handleAccept (w : Nat)
  /-- `Connect`: the lock, and `GetState`. -/
  | connect (w : Nat) (accepted : Bool)
  /-- `Connect`: `ConnectSession`, and the unlock. -/
  | connectSession (w : Nat) (accepted : Bool)
  /-- `SendPacket`, to `RegisterSend`. -/
  | sendPacket (w : Nat) (p : Purpose)
  /-- `OnSend`, to `RegisterSend`. -/
  | onSend (w : Nat)
  /-- `OnRecv`, to `RegisterRecv`. -/
  | onRecv (w : Nat)
  /-- `Disconnect`: the lock, and `GetState`. -/
  | disconnect (w : Nat)
  /-- `Disconnect`: `SetState`, and the unlock. -/
  | setState (w : Nat)
  /-- `Session::Reset`, `DisconnectSession`. -/
  | reset (w : Nat)
  /-- `GetSession` of a caller. -/
  | lookup (handle : Nat) (call : Call)
  /-- `~SharedPoolPtr`. -/
  | drop (g : Nat)
  /-- `ReleaseRef`: `Push`, and the post-release callback. -/
  | push (g : Nat)
  /-- `Execute`, to what its handler does. -/
  | execute (t : Task)
  /-- `RegisterAccount` or `Authenticate` begins. -/
  | account (w : Nat)
  /-- It returns. -/
  | accountEnd (w : Nat)
  /-- `HandleLogin`: `session.GetHandle()`, and the call of `LogInSession`. -/
  | logIn (w : Nat)
  /-- `HandleLogout`: `session.GetHandle()`, and the call of `LogOutSession`. -/
  | logOut (w : Nat)
  /-- `LogInSession` or `LogOutSession` of `handle`: `sessionPtrs_[idx]->accountId_ = …`. -/
  | setAccountId (w : Nat) (handle : Nat)
  /-- The end of a task. -/
  | taskEnd (w : Nat)
  deriving DecidableEq, Repr

/-- What follows when `SendPacket`, `OnSend` or `RegisterRecv` has returned `ok`. -/
def Purpose.after (w : Nat) : Purpose → Bool → List Instr
  | .welcome accepted, true => [.register w (.firstRecv accepted)]
  | .welcome true, false | .firstRecv true, false | .nextRecv, false | .nextSend, false =>
      [.disconnect w]
  | _, _ => []

/-- What the code does not decide.  `ok`: the compare-exchange is not spurious, the operation
succeeds, there is room in the buffer, everything sent has been completed, or every frame received
is valid; `pending`: an operation that does not succeed is pending; `tasks`: the packets received;
`handles`: the sessions `Broadcast` lists. -/
structure Outcome where
  ok : Bool
  pending : Bool
  tasks : List TaskKind
  handles : List Nat

/-- What has happened to a slot since it was last popped: how often its pointer was stored in
`sessionPtrs_`, `Connect` found it pending, `RegisterDisconnect` was called, and `DisconnectSession`
was. -/
structure Life where
  entered : Nat
  connects : Nat
  registers : Nat
  resets : Nat
  deriving DecidableEq, Repr

/-- The server.  `acquired` and `pushed` count the `Pop` and `Push` calls on each slot so far. -/
structure Engine (ι : Type) (N : Nat) where
  set : SparseSet N SessionState.kCnt.toNat
  refCount : Nat → Nat
  sessions : Nat → Conn
  sessionPtrs : Nat → Option Nat
  pendingAccepts : Nat
  tasks : List Task
  code : ι → List Instr
  life : Nat → Life
  acquired : Nat → Nat
  pushed : Nat → Nat

namespace Engine

variable {ι : Type} {N : Nat}

/-- Before any thread has started. -/
def start (ι : Type) (N : Nat) : Engine ι N where
  set := .new N _
  refCount _ := 0
  sessions _ := .fresh
  sessionPtrs _ := none
  pendingAccepts := 0
  tasks := []
  code _ := []
  life _ := ⟨0, 0, 0, 0⟩
  acquired _ := 0
  pushed _ := 0

/-! ### Pointers -/

/-- `AddRef`. -/
def addRef (s : Engine ι N) (handle : Nat) : Option (Engine ι N) := do
  let count ← rd N s.refCount (slotIndex handle)
  let refCount ← wr N s.refCount (slotIndex handle) (u64 (count + 1))
  return { s with refCount }

/-- `ReleaseRef`, and the rest of it if the reference was the last. -/
def releaseRef (s : Engine ι N) (handle : Nat) : Option (Engine ι N × List Instr) := do
  let count ← rd N s.refCount (slotIndex handle)
  let refCount ← wr N s.refCount (slotIndex handle) (sub64 count 1)
  return ({ s with refCount }, if count = 1 then [.push handle] else [])

/-- `SharedPoolPtr(const SharedPoolPtr&)`, in one step. -/
def copyPtr (s : Engine ι N) : Option Nat → Option (Engine ι N)
  | none => some s
  | some handle => s.addRef handle

/-- `if (pool_) pool_->ReleaseRef(handle_)`. -/
def releasePtr (s : Engine ι N) : Option Nat → Option (Engine ι N × List Instr)
  | none => some (s, [])
  | some handle => s.releaseRef handle

/-- `GetSession`: the entry is copied in one step. -/
def getSession (s : Engine ι N) (handle : Nat) : Option (Engine ι N × Option Nat) := do
  let p ← rd N s.sessionPtrs (slotIndex handle)
  let s ← s.copyPtr p
  return (s, p)

/-- The session in the slot `w` becomes `c`. -/
def putConn (s : Engine ι N) (w : Nat) (c : Conn) : Engine ι N :=
  { s with sessions := upd s.sessions w c }

/-- An `OverlappedEx` of the session in the slot `w` becomes `f` of it. -/
def putIo (s : Engine ι N) (w : Nat) (x : Ov) (f : Io → Io) : Engine ι N :=
  s.putConn w { s.sessions w with
    ov := Function.update (s.sessions w).ov x (f ((s.sessions w).ov x)) }

/-- `sessionPtr_.Reset()`, in one step. -/
def resetOv (s : Engine ι N) (w : Nat) (x : Ov) : Option (Engine ι N × List Instr) := do
  let (s, rest) ← s.releasePtr ((s.sessions w).ov x).sessionPtr
  return (s.putIo w x fun io => { io with sessionPtr := none }, rest)

/-- `OverlappedEx::Reset`. -/
def initOv (s : Engine ι N) (w : Nat) (x : Ov) : Option (Engine ι N × List Instr) := do
  let (s, rest) ← s.resetOv w x
  return (s.putIo w x fun io => { io with ioType := .kNone }, rest)

/-- The life of the slot `w` becomes `f` of it. -/
def record (s : Engine ι N) (w : Nat) (f : Life → Life) : Engine ι N :=
  { s with life := upd s.life w (f (s.life w)) }

/-! ### Instructions -/

/-- `SOCKET_ERROR`. -/
def SOCKET_ERROR : Int := -1

/-- `BOOL`. -/
def BOOL (b : Bool) : Int := if b then 1 else 0

variable (kMaxAccept : Nat)

/-- One instruction: the server after it, and what takes its place.  It is atomic, with the copy or
reset of a pointer in it. -/
def perform (s : Engine ι N) (o : Outcome) : Instr → Option (Engine ι N × List Instr)
  | .load =>
      if kMaxAccept ≤ s.pendingAccepts then some (s, []) else some (s, [.cas s.pendingAccepts])
  | .cas current =>
      if s.pendingAccepts = current ∧ o.ok then
        some ({ s with pendingAccepts := current + 1 }, [.acquire])
      else
        some (s, [.load])
  | .rollback => some ({ s with pendingAccepts := sub64 s.pendingAccepts 1 }, [])
  | .setListener g =>
      let w := slotIndex g
      some (s.putConn w { s.sessions w with listener := true }, [])
  | .acquire => do
      let (set, g) ← s.set.pop SessionState.kPending.toNat
      let s := { s with set }
      if set.isValid g then
        let w := slotIndex g
        return ({ s.record w fun _ => ⟨0, 0, 0, 0⟩ with
          acquired := upd s.acquired w (s.acquired w + 1) }, [.init g])
      else
        return (s, [.rollback])
  | .init g => do
      let w := slotIndex g
      let (s, l₁) ← s.initOv w .recv
      let (s, l₂) ← s.initOv w .send
      let (s, l₃) ← s.initOv w .disconnect
      let s := s.putConn w { s.sessions w with
        listener := false, isSending := false, handle := kInvalidHandle }
      let refCount ← wr N s.refCount w 0
      return ({ s with refCount }, l₁ ++ l₂ ++ l₃ ++ [.construct g])
  | .construct g => do
      let s ← s.addRef g
      return (s, [.enter g])
  | .enter g => do
      let w := slotIndex g
      let s := s.putConn w { s.sessions w with handle := g }
      let p ← rd N s.sessionPtrs w
      let (s, rest) ← s.releasePtr p
      let sessionPtrs ← wr N s.sessionPtrs w (some g)
      let s := s.record w fun l => { l with entered := l.entered + 1 }
      return ({ s with sessionPtrs }, rest ++ [.give w])
  | .give w => do
      let p ← rd N s.sessionPtrs w
      match p with
      | none => return (s, [.rollback])
      | some g =>
        let s ← s.addRef g
        if s.set.isValid g then
          return (s, [.register (slotIndex g) (.accept g)])
        else
          return (s, [.rollback, .drop g])
  | .register w p =>
      let c := s.sessions w
      if p.ov = .recv ∧ p.ioType = .kRecv ∧ ¬ o.ok then
        -- "recv buffer overflow detected"
        some (s, p.after w false)
      else do
        let s := s.putIo w p.ov fun io => { io with ioType := p.ioType }
        let (s, session) ← s.getSession c.handle
        let s := if p = .disconnect then
          s.record w fun l => { l with registers := l.registers + 1 } else s
        return (s, [.assign w p session])
  | .assign w p session => do
      let (s, rest) ← s.releasePtr ((s.sessions w).ov p.ov).sessionPtr
      return (s.putIo w p.ov fun io => { io with sessionPtr := session }, rest ++ [.post w p])
  | .post w p =>
      let c := s.sessions w
      let posted := { c with
        ov := Function.update c.ov p.ov { c.ov p.ov with ops := (c.ov p.ov).ops + 1 } }
      match p with
      | .accept g =>
          let s := if o.ok ∨ o.pending then s.putConn w { posted with link := .accepting } else s
          if BOOL o.ok = SOCKET_ERROR ∧ ¬ o.pending then
            -- "Failed to post AcceptEx"
            some (s, [.rollback, .disconnect w, .drop g])
          else
            some (s, [.setListener g, .drop g, .load])
      | .disconnect => some (if o.ok ∨ o.pending then s.putConn w posted else s, [])
      | _ =>
          if o.ok then
            if c.link = .connected then
              some (s.putConn w { posted with sendCs := if p.ov = .send then false else c.sendCs },
                p.after w true)
            else none
          else do
            let (s, rest) ← s.resetOv w p.ov
            return (s.putConn w { s.sessions w with
              sendCs := if p.ov = .send then false else c.sendCs }, rest ++ p.after w false)
  | .complete w x ok zero => do
      let g ← ((s.sessions w).ov x).sessionPtr
      let accepts := if ((s.sessions w).ov x).ioType = .kAccept then [.countDown g] else []
      let s ← s.addRef g
      return (s, accepts ++ [if ok then .dispatch w x zero else .handleError w x, .drop g])
  | .countDown g =>
      if (s.sessions (slotIndex g)).listener then
        some ({ s with pendingAccepts := sub64 s.pendingAccepts 1 }, [.load])
      else none
  | .handleError w x => do
      let g ← ((s.sessions w).ov x).sessionPtr
      let s ← s.addRef g
      if ((s.sessions w).ov x).ioType = .kDisconnect then
        return (s, [.reset (slotIndex g), .drop g])
      else
        return (s, [.failed w x g, .drop g])
  | .failed w x g => do
      let (s, rest) ← s.resetOv w x
      return (s, rest ++ [.disconnect (slotIndex g)])
  | .dispatch w x zero => do
      let g ← ((s.sessions w).ov x).sessionPtr
      let s ← s.addRef g
      return (s, [.dispatched w x g zero, .drop g])
  | .dispatched w x g zero => do
      let (s, rest) ← s.resetOv w x
      let w' := slotIndex g
      match ((s.sessions w).ov x).ioType with
      | .kAccept => return (s, rest ++ [.handleAccept w'])
      | .kDisconnect => return (s, rest ++ [.reset w'])
      | .kRecv => return (s, rest ++ [if zero then .disconnect w' else .onRecv w'])
      | .kSend => return (s, rest ++ [if zero then .disconnect w' else .onSend w'])
      | .kNone => return (s, rest ++ [.disconnect w'])
  | .handleAccept w =>
      if (s.sessions w).listener then
        some (s, [if o.ok then .connect w true else .disconnect w])
      else none
  | .connect w accepted =>
      let c := s.sessions w
      if c.connectCs then none
      else do
        if (← s.set.getState c.handle) = SessionState.kPending.toNat then
          return (s.putConn w { c with connectCs := true }, [.connectSession w accepted])
        else
          -- "Invalid state for Connect"
          return (s, if accepted then [.disconnect w] else [])
  | .connectSession w accepted => do
      let c := s.sessions w
      let set ← s.set.moveToState c.handle SessionState.kConnected.toNat
      let s := s.record w fun l => { l with connects := l.connects + 1 }
      return ({ s.putConn w { c with connectCs := false } with set },
        [.sendPacket w (.welcome accepted)])
  | .sendPacket w p =>
      let c := s.sessions w
      if c.sendCs then none
      else if ¬ o.ok then
        -- "Send buffer overflow detected"
        some (s, p.after w false)
      else if c.isSending then
        some (s, p.after w true)
      else
        some (s.putConn w { c with isSending := true, sendCs := true }, [.register w p])
  | .onSend w =>
      let c := s.sessions w
      if c.sendCs ∨ ¬ c.isSending then none
      else if o.ok then
        some (s.putConn w { c with isSending := false }, [])
      else
        some (s.putConn w { c with sendCs := true }, [.register w .nextSend])
  | .onRecv w =>
      let s := { s with
        tasks := s.tasks ++ o.tasks.map fun kind => ⟨w, (s.sessions w).handle, kind⟩ }
      some (s, [if o.ok then .register w .nextRecv else .disconnect w])
  | .disconnect w =>
      let c := s.sessions w
      if c.connectCs then none
      else do
        let state ← s.set.getState c.handle
        if state = SessionState.kPending.toNat ∨ state = SessionState.kConnected.toNat then
          return (s.putConn w { c with connectCs := true }, [.setState w])
        else
          return (s, [])
  | .setState w => do
      let c := s.sessions w
      let set ← s.set.moveToState c.handle SessionState.kDisconnecting.toNat
      return ({ s.putConn w { c with connectCs := false } with set }, [.register w .disconnect])
  | .reset w => do
      let handle := (s.sessions w).handle
      let p ← rd N s.sessionPtrs (slotIndex handle)
      let (s, rest) ← s.releasePtr p
      let sessionPtrs ← wr N s.sessionPtrs (slotIndex handle) none
      let s := s.record (slotIndex handle) fun l => { l with resets := l.resets + 1 }
      return ({ s with sessionPtrs }, rest)
  | .lookup handle call => do
      let (s, p) ← s.getSession handle
      match p with
      | none => return (s, [])
      | some g =>
        let body := match call with
          | .send => if s.set.isValid g then [.sendPacket (slotIndex g) .plain] else []
          | .connect => [.connect (slotIndex g) false]
          | .disconnect => [.disconnect (slotIndex g)]
        return (s, body ++ [.drop g])
  | .drop g => s.releaseRef g
  | .push g => do
      let w := slotIndex g
      let set ← s.set.push g
      return ({ s with set, pushed := upd s.pushed w (s.pushed w + 1) }, [.load])
  | .execute t =>
      some (s, match t.kind with
        | .reply => [.account t.slot, .accountEnd t.slot, .sendPacket t.slot .plain]
        | .login => [.logIn t.slot, .sendPacket t.slot .plain]
        | .logout => [.sendPacket t.slot .plain, .logOut t.slot]
        | .broadcast => o.handles.map fun handle => .lookup handle .send)
  | .account _ | .accountEnd _ => some (s, [])
  | .logIn w =>
      some (s, [.account w, .accountEnd w, .setAccountId w (s.sessions w).handle])
  | .logOut w => some (s, [.setAccountId w (s.sessions w).handle])
  | .setAccountId _ handle => do
      let p ← rd N s.sessionPtrs (slotIndex handle)
      let _ ← p
      return (s, [])
  | .taskEnd _ => some (s, [])

/-- `PostAccept` ends when the limit is reached. -/
theorem perform_full {s : Engine ι N} (o : Outcome) (h : kMaxAccept ≤ s.pendingAccepts) :
    s.perform kMaxAccept o .load = some (s, []) := by
  simp only [perform, if_pos h]

/-! ### Threads -/

/-- A thread starts, Winsock acts, or a thread goes on. -/
inductive Event (ι : Type) where
  /-- `PostAccept`, by `ServerService::Start`. -/
  | postAccept (a : ι)
  /-- A caller with a handle: `SendToSession`, `Connect` or `Disconnect`. -/
  | call (a : ι) (handle : Nat) (call : Call)
  /-- `WorkerThreadFunc` takes the next task. -/
  | task (a : ι)
  /-- A client is connected to the socket of the slot `w`. -/
  | accepted (w : Nat)
  /-- The `DisconnectEx` on the socket of the slot `w` completes. -/
  | disconnected (w : Nat)
  /-- `WorkerThread` takes a completion from the port: successful or not, of no bytes or of some. -/
  | dequeue (a : ι) (w : Nat) (x : Ov) (ok zero : Bool)
  /-- The next instruction. -/
  | run (a : ι) (o : Outcome)

variable [DecidableEq ι]

/-- The thread `a` has `code` to execute. -/
def putCode (s : Engine ι N) (a : ι) (code : List Instr) : Engine ι N :=
  { s with code := Function.update s.code a code }

def step (s : Engine ι N) : Event ι → Option (Engine ι N)
  | .postAccept a => if s.code a = [] then some (s.putCode a [.load]) else none
  | .call a handle call =>
      if s.code a = [] then some (s.putCode a [.lookup handle call]) else none
  | .task a =>
      match s.tasks with
      | t :: tasks =>
          if s.code a = [] then
            some ({ s with tasks }.putCode a [.execute t, .taskEnd t.slot])
          else none
      | [] => none
  | .accepted w =>
      if (s.sessions w).link = .accepting then
        some (s.putConn w { s.sessions w with link := .connected })
      else none
  | .disconnected w =>
      if 0 < ((s.sessions w).ov .disconnect).ops then
        some (s.putConn w { s.sessions w with link := .closed })
      else none
  | .dequeue a w x ok zero =>
      if s.code a = [] ∧ 0 < ((s.sessions w).ov x).ops ∧
          (x = .disconnect → (s.sessions w).link = .closed) then
        some ((s.putIo w x fun io => { io with ops := io.ops - 1 }).putCode a
          [.complete w x ok zero])
      else none
  | .run a o =>
      match s.code a with
      | [] => none
      | i :: rest => do
          let (s, is) ← s.perform kMaxAccept o i
          return s.putCode a (is ++ rest)

end Engine

end IocpServer
