import IocpServer.Packet.Accounts
import IocpServer.Server.SessionManager

/-!
# Server — Identity

Whose a session is: `accountId_` over runs of connections, disconnections, slots given again, and
packets executed one at a time, beside what it should be.

`Authenticate` finds the account's key, but what `LogInSession` stores is the `dbId_` of an `Account`
that was made from the packet, which is 0.

* `run_zero`: every `accountId_` is 0 in every run.
* `identity_iff`: so it is right as long as no login succeeds, and wrong after one that does.
-/

namespace IocpServer

namespace Server

/-- `CreateSession`. -/
def createSession (w : Server) : Option (Server × Option Nat) := do
  let (sessionPool, handle) ← w.sessionPool.pop SessionState.kPending.toNat
  if sessionPool.isValid handle then
    let idx := slotIndex handle
    let s ← rd Config.kMaxSession w.sessions idx
    let sessions ← wr Config.kMaxSession w.sessions idx { s.init with handle }
    let sessionPtrs ← wr Config.kMaxSession w.sessionPtrs idx (some handle)
    return ({ w with sessionPool, sessions, sessionPtrs }, some handle)
  else
    return ({ w with sessionPool }, none)

/-- `DisconnectSession`. -/
def disconnectSession (w : Server) (handle : Nat) : Option Server := do
  let sessionPtrs ← wr Config.kMaxSession w.sessionPtrs (slotIndex handle) none
  return { w with sessionPtrs }

/-- The last reference to a session gives its slot back. -/
def releaseSession (w : Server) (handle : Nat) : Option Server := do
  let sessionPool ← w.sessionPool.push handle
  return { w with sessionPool }

end Server

/-- The server, and for each slot the `accountId_` its session should have, where that is laid
down. -/
structure Identity where
  pool : PacketPool
  server : Server
  expected : Nat → Option Int

namespace Identity


inductive Event where
  | create
  | connect (handle : Nat)
  | disconnect (handle : Nat)
  | release (handle : Nat)
  /-- `Execute`, for the session in slot `self`. -/
  | execute (queued : Nat → Bool) (self : Nat) (packet : List Byte)
  /-- Receives and completions change a session's rings. -/
  | transfer (slot : Nat) (recvOv sendOv disconnectOv : OverlappedEx) (isSending : Bool)
  /-- Other packets are acquired and released. -/
  | packets (pool : PacketPool)

/-- What `Authenticate` returns for the fields of a packet. -/
def authenticated (s : Identity) (packet : List Byte) : Int :=
  match PacketHandler.received s.pool packet with
  | some memory => s.server.accounts.authenticate (field memory 4) (field memory 36)
  | none => 0

/-- What the session's `accountId_` should be after a packet: a login that succeeds gives it the
key, and one that fails leaves it at 0 if it is to be 0. -/
def afterPacket (s : Identity) (self : Nat) (packet : List Byte) : Option Int :=
  if headerId packet = PacketId.kLogin.toNat then
    if s.authenticated packet ≠ 0 then some (s.authenticated packet)
    else if s.expected self = some 0 then some 0 else none
  else if headerId packet = PacketId.kLogout.toNat then some 0
  else s.expected self

def step (s : Identity) : Event → Option Identity
  | .create => do
    let (server, handle) ← s.server.createSession
    return { s with server, expected := match handle with
      | some handle => upd s.expected (slotIndex handle) (some 0)
      | none => s.expected }
  | .connect handle => do
    let server ← s.server.connectSession handle
    return { s with server }
  | .disconnect handle => do
    let server ← s.server.disconnectSession handle
    return { s with server, expected := upd s.expected (slotIndex handle) none }
  | .release handle => do
    let server ← s.server.releaseSession handle
    return { s with server }
  | .execute queued self packet => do
    let (pool, server) ← PacketHandler.execute queued s.pool s.server self packet
    return ⟨pool, server, upd s.expected self (s.afterPacket self packet)⟩
  | .transfer slot recvOv sendOv disconnectOv isSending =>
    let session := { s.server.sessions slot with recvOv, sendOv, disconnectOv, isSending }
    some { s with server := { s.server with sessions := upd s.server.sessions slot session } }
  | .packets pool => some { s with pool }

/-- Every session is whose it should be. -/
def Right (s : Identity) : Prop :=
  ∀ slot id, s.expected slot = some id → (s.server.sessions slot).accountId = id

/-- The step executes a login that succeeds. -/
def LogsIn (s : Identity) : Event → Prop
  | .execute _ _ packet => headerId packet = PacketId.kLogin.toNat ∧ s.authenticated packet ≠ 0
  | _ => False

/-- Nothing connected, with the accounts the server has. -/
def start (pool : PacketPool) (server : Server) : Identity := ⟨pool, server, fun _ => none⟩

variable {s s' : Identity} {e : Event} {es : List Event}

theorem step_execute {queued : Nat → Bool} {self : Nat} {packet : List Byte} {pool : PacketPool}
    {server : Server}
    (h : PacketHandler.execute queued s.pool s.server self packet = some (pool, server)) :
    s.step (.execute queued self packet) =
      some ⟨pool, server, upd s.expected self (s.afterPacket self packet)⟩ := by
  rw [step, h]
  rfl

/-! ### What is stored -/

/-- No session has an account. -/
def Zero (w : Server) : Prop := ∀ slot, (w.sessions slot).accountId = 0

/-- A session changed but for its account. -/
theorem Zero.upd {w w' : Server} (h : Zero w) {slot : Nat} {session : Session}
    (hs : w'.sessions = upd w.sessions slot session) (hid : session.accountId = 0) : Zero w' := by
  intro k
  rw [hs]
  by_cases hk : k = slot
  · rw [hk, upd_same, hid]
  · rw [upd_other hk]
    exact h k

/-- `Execute` gives no session an account. -/
theorem Zero.execute {queued : Nat → Bool} {q q' : PacketPool} {w w' : Server} {self : Nat}
    {packet : List Byte} (h : Zero w)
    (he : PacketHandler.execute queued q w self packet = some (q', w')) : Zero w' := by
  refine (PacketHandler.execute_effect he).keeps ?_ ?_ ?_ h
  · intro a b slot header ha hs
    obtain ⟨-, r, hr, rfl⟩ := Server.sendPacket_elim hs
    refine ha.upd rfl ?_
    rw [Session.sendPacket_frame hr]
    exact ha slot
  · intro a b handle ha hs
    obtain ⟨held, -, rfl⟩ := Server.setAccountId_elim hs
    exact ha.upd rfl rfl
  · intro a ha accounts
    exact ha

theorem Zero.create {w w' : Server} {handle : Option Nat} (h : Zero w)
    (hs : w.createSession = some (w', handle)) : Zero w' := by
  obtain ⟨⟨sessionPool, handle'⟩, -, hs⟩ := Option.bind_eq_some_iff.mp hs
  dsimp only at hs
  split at hs
  · obtain ⟨session, hrd, hs⟩ := Option.bind_eq_some_iff.mp hs
    obtain ⟨sessions, hwr, hs⟩ := Option.bind_eq_some_iff.mp hs
    obtain ⟨sessionPtrs, -, hs⟩ := Option.bind_eq_some_iff.mp hs
    cases hs
    rw [rd] at hrd
    rw [wr] at hwr
    split_ifs at hrd hwr
    cases hrd
    cases hwr
    -- `Init` does not clear the account: it is 0 because it was
    exact h.upd rfl (h _)
  · cases hs
    exact h

/-- **One step.** -/
theorem step_zero (h : Zero s.server) (hs : s.step e = some s') : Zero s'.server := by
  cases e with
  | create =>
    obtain ⟨⟨server, handle⟩, hw, hs⟩ := Option.bind_eq_some_iff.mp hs
    cases hs
    exact h.create hw
  | connect handle =>
    obtain ⟨server, hw, hs⟩ := Option.bind_eq_some_iff.mp hs
    obtain ⟨sessionPool, -, hw⟩ := Option.bind_eq_some_iff.mp hw
    cases hw
    cases hs
    exact h
  | disconnect handle =>
    obtain ⟨server, hw, hs⟩ := Option.bind_eq_some_iff.mp hs
    obtain ⟨sessionPtrs, -, hw⟩ := Option.bind_eq_some_iff.mp hw
    cases hw
    cases hs
    exact h
  | release handle =>
    obtain ⟨server, hw, hs⟩ := Option.bind_eq_some_iff.mp hs
    obtain ⟨sessionPool, -, hw⟩ := Option.bind_eq_some_iff.mp hw
    cases hw
    cases hs
    exact h
  | execute queued self packet =>
    obtain ⟨⟨pool, server⟩, hw, hs⟩ := Option.bind_eq_some_iff.mp hs
    cases hs
    exact h.execute hw
  | transfer slot recvOv sendOv disconnectOv isSending =>
    cases hs
    exact h.upd rfl (h slot)
  | packets pool =>
    cases hs
    exact h

theorem run_zero {ok : Identity → Event → Prop} {pool : PacketPool} {server : Server}
    (h : Zero server) (r : Runs step ok (start pool server) es s) : Zero s.server :=
  r.invariant (I := fun s => Zero s.server) h fun _ _ _ h _ hs => step_zero h hs

/-! ### What should be stored -/

/-- Where it is laid down what a session's account should be, it should have none. -/
def Nobody (s : Identity) : Prop := ∀ slot id, s.expected slot = some id → id = 0

theorem Nobody.upd (h : s.Nobody) {slot : Nat} {id : Option Int} (hid : ∀ i, id = some i → i = 0)
    (he : s'.expected = upd s.expected slot id) : s'.Nobody := by
  intro k i hk
  rw [he] at hk
  by_cases hks : k = slot
  · rw [hks, upd_same] at hk
    exact hid i hk
  · rw [upd_other hks] at hk
    exact h k i hk

/-- A step without a successful login. -/
theorem step_nobody (h : s.Nobody) (hl : ¬ s.LogsIn e) (hs : s.step e = some s') : s'.Nobody := by
  cases e with
  | create =>
    obtain ⟨⟨server, handle⟩, -, hs⟩ := Option.bind_eq_some_iff.mp hs
    cases hs
    cases handle with
    | none => exact h
    | some handle => exact h.upd (fun i hi => (Option.some.inj hi).symm) rfl
  | connect handle =>
    obtain ⟨server, -, hs⟩ := Option.bind_eq_some_iff.mp hs
    cases hs
    exact h
  | disconnect handle =>
    obtain ⟨server, -, hs⟩ := Option.bind_eq_some_iff.mp hs
    cases hs
    refine h.upd (fun i hi => ?_) rfl
    cases hi
  | release handle =>
    obtain ⟨server, -, hs⟩ := Option.bind_eq_some_iff.mp hs
    cases hs
    exact h
  | execute queued self packet =>
    obtain ⟨⟨pool, server⟩, -, hs⟩ := Option.bind_eq_some_iff.mp hs
    cases hs
    refine h.upd (fun i hi => ?_) rfl
    rw [afterPacket] at hi
    split_ifs at hi with hlogin hkey hzero hlogout
    · exact absurd ⟨hlogin, hkey⟩ hl
    · exact (Option.some.inj hi).symm
    · exact (Option.some.inj hi).symm
    · exact h self i hi
  | transfer slot recvOv sendOv disconnectOv isSending =>
    cases hs
    exact h
  | packets pool =>
    cases hs
    exact h

/-- A successful login gives its session an account, which it does not get. -/
theorem login_wrong (hz : Zero s.server) (hl : s.LogsIn e) (hs : s.step e = some s') : ¬ s'.Right := by
  cases e with
  | execute queued self packet =>
    obtain ⟨hlogin, hkey⟩ := hl
    have hz' := step_zero hz hs
    obtain ⟨⟨pool, server⟩, -, hs⟩ := Option.bind_eq_some_iff.mp hs
    cases hs
    intro hright
    have hexp : Identity.expected ⟨pool, server, upd s.expected self (s.afterPacket self packet)⟩ self =
        some (s.authenticated packet) := by
      show upd s.expected self (s.afterPacket self packet) self = _
      rw [upd_same, afterPacket, if_pos hlogin, if_pos hkey]
    exact hkey ((hright self _ hexp).symm.trans (hz' self))
  | create => exact hl.elim
  | connect handle => exact hl.elim
  | disconnect handle => exact hl.elim
  | release handle => exact hl.elim
  | transfer slot recvOv sendOv disconnectOv isSending => exact hl.elim
  | packets pool => exact hl.elim

/-- **A session's account is right as long as no login succeeds**, and no longer. -/
theorem identity_iff {pool : PacketPool} {server : Server} (h : Zero server)
    (r : Runs step (fun s e => ¬ s.LogsIn e) (start pool server) es s) :
    s.Right ∧ ∀ e s', s.step e = some s' → (s'.Right ↔ ¬ s.LogsIn e) := by
  have hz := run_zero h r
  have hn : s.Nobody := r.invariant (I := Nobody) (fun _ _ h => by cases h)
    fun _ _ _ h hl hs => step_nobody h hl hs
  have right : ∀ {s : Identity}, Zero s.server → s.Nobody → s.Right := by
    intro s hz hn slot id hid
    rw [hn slot id hid]
    exact hz slot
  refine ⟨right hz hn, fun e s' hs => ?_⟩
  constructor
  · intro hright hl
    exact login_wrong hz hl hs hright
  · intro hl
    exact right (step_zero hz hs) (step_nobody hn hl hs)

/-! ### A registration and a login -/

/-- A registration, after which the pool and the session are as before. -/
theorem registers : ∃ es s, Runs step (fun s e => ¬ s.LogsIn e)
      (start (PacketPool.blank 0) (stage ⟨[], 0⟩)) es s ∧
    s.pool = PacketPool.blank 0 ∧ s.server.accounts = ⟨[⟨1, [65], [66]⟩], 1⟩ ∧
    PacketHandler.Serving s.pool s.server 0 := by
  have full : FullSize (Ledger.credentialsPacket .kRegister) := ⟨by decide, by decide, by decide⟩
  obtain ⟨pool, server, he⟩ : ∃ pool server, PacketHandler.execute (fun _ => true)
      (PacketPool.blank 0) (stage ⟨[], 0⟩) 0 (Ledger.credentialsPacket .kRegister) =
        some (pool, server) :=
    PacketHandler.execute_serves full Ledger.requestOf_register (Ledger.stage_serving ⟨[], 0⟩)
  obtain ⟨w₁, ⟨message, response, -, hsend, -⟩, haccounts, -⟩ :=
    PacketHandler.execute_answers full Ledger.requestOf_register he
  have hacc : server.accounts = ⟨[⟨1, [65], [66]⟩], 1⟩ :=
    (Server.sendPacket_accounts hsend).trans haccounts
  obtain ⟨hptrs, hhandle⟩ := (PacketHandler.execute_effect he).handles
  have hhandle : (server.sessions 0).handle = 0 := hhandle 0
  have h₁ := step_execute (s := start (PacketPool.blank 0) (stage ⟨[], 0⟩)) he
  have hne : ¬ (start (PacketPool.blank 0) (stage ⟨[], 0⟩)).LogsIn
      (.execute (fun _ => true) 0 (Ledger.credentialsPacket .kRegister)) :=
    fun h => absurd h.1 (by decide)
  let ov := Session.fresh.sendOv
  have run₁ : Runs step (fun s e => ¬ s.LogsIn e) _ _ _ := Runs.one hne h₁
  have run₂ := run₁.more (show ¬ LogsIn _ (.packets (PacketPool.blank 0)) from fun h => h) rfl
  have run := run₂.more (show ¬ LogsIn _ (.transfer 0 ov ov ov false) from fun h => h) rfl
  refine ⟨_, _, run, rfl, hacc, PacketPool.blank_room 0, by decide, ?_, ?_, ?_⟩
  · show (upd server.sessions 0 _ 0).sendOv.Settled
    rw [upd_same]
    exact OverlappedEx.Empty.settled (show ov.Empty from ⟨rfl, rfl, rfl⟩)
  · show slotIndex (upd server.sessions 0 _ 0).handle < _
    rw [upd_same]
    show slotIndex (server.sessions 0).handle < _
    rw [hhandle]
    decide
  · show ∃ held, server.sessionPtrs (slotIndex (upd server.sessions 0 _ 0).handle) = some held ∧ _
    rw [upd_same]
    show ∃ held, server.sessionPtrs (slotIndex (server.sessions 0).handle) = some held ∧ _
    rw [hhandle, hptrs]
    exact ⟨0, rfl, by decide⟩

/-- A packet of full size is authenticated by its own fields. -/
theorem authenticated_full {packet memory : List Byte} (hp : FullSize packet)
    (h : PacketHandler.received s.pool packet = some memory) : s.authenticated packet =
      s.server.accounts.authenticate (field packet 4) (field packet 36) := by
  obtain ⟨rest, rfl⟩ := PacketHandler.received_full hp h
  obtain ⟨-, hid, hpassword⟩ := PacketHandler.field_full hp rest
  rw [authenticated, h]
  dsimp only
  rw [hid, hpassword]

theorem stage_zero (accounts : AccountStore) : Zero (stage accounts) := fun _ => rfl

/-- After a registration every account is right. -/
theorem identity_iff_registers : ∃ es s, Runs step (fun s e => ¬ s.LogsIn e)
    (start (PacketPool.blank 0) (stage ⟨[], 0⟩)) es s ∧ s.Right := by
  obtain ⟨es, s, run, -⟩ := registers
  exact ⟨es, s, run, (identity_iff (stage_zero ⟨[], 0⟩) run).1⟩

/-- The login after it is answered with success, as `Authenticate` has found the key 1, and the
session's account is 0. -/
theorem login_stores_zero : ∃ es s s',
    Runs step (fun s e => ¬ s.LogsIn e) (start (PacketPool.blank 0) (stage ⟨[], 0⟩)) es s ∧
      s.step (.execute (fun _ => true) 0 (Ledger.credentialsPacket .kLogin)) = some s' ∧
      s.authenticated (Ledger.credentialsPacket .kLogin) = 1 ∧
      (∃ w₁, Answered (fun _ => true) 0 ⟨.kLogin, [65], [66]⟩ true w₁ s'.server) ∧
      (s'.server.sessions 0).accountId = 0 ∧ ¬ s'.Right := by
  obtain ⟨es, s, run, hpool, hacc, hserving⟩ := registers
  have full : FullSize (Ledger.credentialsPacket .kLogin) := ⟨by decide, by decide, by decide⟩
  obtain ⟨pool, server, he⟩ : ∃ pool server, PacketHandler.execute (fun _ => true) s.pool s.server 0
      (Ledger.credentialsPacket .kLogin) = some (pool, server) :=
    PacketHandler.execute_serves full Ledger.requestOf_login hserving
  obtain ⟨w₁, hanswered, -⟩ := PacketHandler.execute_answers full Ledger.requestOf_login he
  have hanswer : (s.server.accounts.answer ⟨.kLogin, [65], [66]⟩).1 = true := by
    rw [hacc]
    decide
  have hkey : s.authenticated (Ledger.credentialsPacket .kLogin) = 1 := by
    obtain ⟨q₁, q₂, memory, hmemory, -⟩ := PacketHandler.execute_elim (by decide) rfl he
    rw [authenticated_full full hmemory, hacc]
    decide +kernel
  have hs := step_execute he
  have hz := run_zero (stage_zero ⟨[], 0⟩) run
  have hlogin : s.LogsIn (.execute (fun _ => true) 0 (Ledger.credentialsPacket .kLogin)) :=
    ⟨by decide, by rw [hkey]; decide⟩
  rw [hanswer] at hanswered
  exact ⟨es, s, _, run, hs, hkey, ⟨w₁, hanswered⟩, step_zero hz hs 0, login_wrong hz hlogin hs⟩

end Identity

end IocpServer
