import IocpServer.Packet.Effects
import IocpServer.Packet.Exposure
import IocpServer.Packet.Service
import IocpServer.Support.Runs

/-!
# Packet — Accounts

Registrations and logins over whole histories.  A history is a sequence of `C2S_REGISTER` and
`C2S_LOGIN` packets of full size given to `Execute` for any sessions; between them the rest of the
server may do anything that leaves the accounts alone.

* `execute_answers`: what one request does to the accounts, and the packet it is answered with.
* `rows_eq_registered`: the table is the requests registered with success.
* `account_store_law`: which requests are answered with success.
-/

namespace IocpServer

/-- What a `C2S_REGISTER` or a `C2S_LOGIN` asks for. -/
structure Request where
  id : PacketId
  userId : List Byte
  password : List Byte
  deriving DecidableEq

/-- The request in a packet: a field is its bytes up to its first NUL, or all of them. -/
def requestOf (packet : List Byte) : Option Request :=
  if headerId packet = PacketId.kRegister.toNat then
    some ⟨.kRegister, field packet 4, field packet 36⟩
  else if headerId packet = PacketId.kLogin.toNat then
    some ⟨.kLogin, field packet 4, field packet 36⟩
  else none

/-- A packet that brings a whole `C2S_REGISTER` or `C2S_LOGIN` and fits a block. -/
structure FullSize (packet : List Byte) : Prop where
  size : headerSize packet = packet.length
  full : 68 ≤ packet.length
  fits : packet.length ≤ Config.kMaxPacketSize

namespace AccountStore

/-- What the database answers a request with, and the table it leaves. -/
def answer (a : AccountStore) (r : Request) : Bool × AccountStore :=
  if r.id = .kRegister then a.registerAccount r.userId r.password
  else (a.authenticate r.userId r.password != 0, a)

/-- The keys handed out are positive. -/
structure Keyed (a : AccountStore) : Prop where
  pos : ∀ row ∈ a.rows, row.id ≠ 0
  seq : 0 ≤ a.seq

variable {a : AccountStore} {userId password : List Byte}

/-- `username` is `UNIQUE`, and there is a key left. -/
theorem registerAccount_success (hseq : a.seq < 2 ^ 63 - 1) :
    (a.registerAccount userId password).1 = true ↔ ∀ row ∈ a.rows, row.username ≠ userId := by
  rw [registerAccount, if_neg hseq.ne]
  by_cases h : a.rows.any (·.username == userId) = true
  · rw [if_pos h]
    obtain ⟨row, hmem, he⟩ := List.any_eq_true.mp h
    exact iff_of_false Bool.noConfusion fun hne => hne row hmem (eq_of_beq he)
  · rw [if_neg h]
    refine iff_of_true rfl fun row hmem he => h ?_
    exact List.any_eq_true.mpr ⟨row, hmem, beq_iff_eq.mpr he⟩

theorem registerAccount_failure (h : (a.registerAccount userId password).1 = false) :
    (a.registerAccount userId password).2 = a := by
  unfold registerAccount at h ⊢
  split_ifs at h ⊢
  · rfl
  · rfl

/-- The row of a registration is the last one. -/
theorem registerAccount_rows (h : (a.registerAccount userId password).1 = true) :
    (a.registerAccount userId password).2 =
      ⟨a.rows ++ [⟨a.seq + 1, userId, password⟩], a.seq + 1⟩ := by
  unfold registerAccount at h ⊢
  split_ifs at h ⊢
  rfl

theorem registerAccount_keyed (h : a.Keyed) : (a.registerAccount userId password).2.Keyed := by
  cases hs : (a.registerAccount userId password).1 with
  | false =>
    rw [registerAccount_failure hs]
    exact h
  | true =>
    have hseq := h.seq
    rw [registerAccount_rows hs]
    refine ⟨fun row hrow => ?_, show 0 ≤ a.seq + 1 by omega⟩
    rcases List.mem_append.mp hrow with hrow | hrow
    · exact h.pos row hrow
    · rw [List.mem_singleton.mp hrow]
      show a.seq + 1 ≠ 0
      omega

/-- The key of the last row is not 0 if there is one. -/
theorem lastKey_ne_zero {rows : List AccountRow} (h : ∀ row ∈ rows, row.id ≠ 0) :
    rows.foldl (fun _ row => row.id) 0 ≠ 0 ↔ rows ≠ [] := by
  induction rows using List.reverseRecOn with
  | nil => exact iff_of_false (fun h => h rfl) (fun h => h rfl)
  | append_singleton rows row ih =>
    rw [List.foldl_append, List.foldl_cons, List.foldl_nil]
    exact iff_of_true (h row (List.mem_append_right _ List.mem_cons_self)) (by simp)

/-- `Authenticate` returns 0 exactly when there is no such row. -/
theorem authenticate_success (h : a.Keyed) :
    (a.authenticate userId password != 0) = true ↔
      ∃ row ∈ a.rows, row.username = userId ∧ row.password = password := by
  rw [bne_iff_ne, authenticate, lastKey_ne_zero fun row hrow => h.pos row (List.mem_of_mem_filter hrow),
    ne_eq, List.filter_eq_nil_iff]
  simp only [Bool.and_eq_true, beq_iff_eq, not_forall, not_not, exists_prop]

end AccountStore

/-! ### One request -/

/-- The session in slot `self` is sent a packet that answers `r` with `success`: its ring has the
packet behind the bytes it had, and if it has no room for it nothing is sent. -/
def Answered (queued : Nat → Bool) (self : Nat) (r : Request) (success : Bool) (w w' : Server) : Prop :=
  ∃ message response, Carries response (resultBytes r.id message success) ∧
    w.sendPacket queued self response = some w' ∧
    ((w.sessions self).sendOv.Settled →
      ((w.sessions self).HasRoom (resultBytes r.id message success).length →
        (w'.sessions self).sendOv.window =
          (w.sessions self).sendOv.window ++ resultBytes r.id message success) ∧
      (¬ (w.sessions self).HasRoom (resultBytes r.id message success).length → w' = w))

/-- `SendPacket` of an answer. -/
theorem Server.sendPacket_answers {queued : Nat → Bool} {w w' : Server} {self : Nat} {r : Request}
    {message response : List Byte} {success : Bool}
    (hc : Carries response (resultBytes r.id message success))
    (hsend : w.sendPacket queued self response = some w') : Answered queued self r success w w' := by
  refine ⟨message, response, hc, hsend, fun hset => ?_⟩
  obtain ⟨-, r', hr, rfl⟩ := sendPacket_elim hsend
  obtain ⟨r₁, hr₁, -, hroom, hfull⟩ := Session.sendPacket_appends hset hc.mem
    (w.getSession (w.sessions self).handle).join (queued self)
  obtain rfl : r' = r₁ := Option.some.inj (hr.symm.trans hr₁)
  rw [← hc.1]
  refine ⟨fun h => ?_, fun h => ?_⟩
  · show (upd w.sessions self r'.session self).sendOv.window = _
    rw [upd_same, hroom h, hc.1, hc.2]
  · rw [hfull h]
    show { w with sessions := Function.update w.sessions self (w.sessions self) } = w
    rw [Function.update_eq_self]

namespace PacketHandler

open PacketPool

variable {queued : Nat → Bool} {q q' : PacketPool} {w w' : Server} {self : Nat}
  {packet memory : List Byte}

theorem fill_elim {slot : Nat} {write : PacketBlock → Option PacketBlock} {bytes : List Byte}
    (h : fill q slot write = some (q', bytes)) : ∃ b c, write b = some c ∧ bytes = c.bytes := by
  obtain ⟨b, -, h⟩ := Option.bind_eq_some_iff.mp h
  obtain ⟨c, hc, h⟩ := Option.bind_eq_some_iff.mp h
  cases h
  exact ⟨b, c, hc, rfl⟩

/-- The fields of a packet of full size, whatever lies behind it. -/
theorem field_full (h : FullSize packet) (rest : List Byte) :
    68 ≤ (packet ++ rest).length ∧ field (packet ++ rest) 4 = field packet 4 ∧
      field (packet ++ rest) 36 = field packet 36 := by
  have hfull := h.full
  refine ⟨?_, field_append (.inl (by omega)) rest, field_append (.inl (by omega)) rest⟩
  rw [List.length_append]
  omega

theorem credentials_full (h : FullSize packet) (rest : List Byte) :
    credentials (packet ++ rest) = some (field packet 4, field packet 36) := by
  obtain ⟨hlen, hid, hpassword⟩ := field_full h rest
  rw [credentials_eq hlen, hid, hpassword]

/-- The response a handler fills in is an answer. -/
theorem fill_result {slot : Nat} {id : PacketId} {message : List Byte} {success : Bool}
    {response : List Byte} (hm : message.length + 6 ≤ Config.kMaxPacketSize)
    (h : fill q slot (resultPacket id message success) = some (q', response)) :
    Carries response (resultBytes id message success) := by
  obtain ⟨b, c, hc, rfl⟩ := fill_elim h
  obtain ⟨c', hc', hcarries⟩ := resultPacket_carries id hm success b
  rw [hc, Option.some.injEq] at hc'
  exact hc' ▸ hcarries

theorem handleRegister_answers (hm : 68 ≤ memory.length)
    (h : handleRegister queued q w self memory = some (q', w')) :
    Answered queued self ⟨.kRegister, field memory 4, field memory 36⟩
      (w.accounts.registerAccount (field memory 4) (field memory 36)).1
      { w with accounts := (w.accounts.registerAccount (field memory 4) (field memory 36)).2 } w' := by
  obtain ⟨⟨userId, password⟩, hcred, h⟩ := Option.bind_eq_some_iff.mp h
  rw [credentials_eq hm, Option.some.injEq, Prod.mk.injEq] at hcred
  obtain ⟨rfl, rfl⟩ := hcred
  dsimp only at h
  generalize w.accounts.registerAccount (field memory 4) (field memory 36) = result at h ⊢
  obtain ⟨success, accounts⟩ := result
  obtain ⟨q₁, handle, q₂, -, h⟩ := withPacket_elim h
  obtain ⟨⟨q₃, response⟩, hfill, h⟩ := Option.bind_eq_some_iff.mp h
  obtain ⟨w₁, hw, h⟩ := Option.bind_eq_some_iff.mp h
  cases h
  refine Server.sendPacket_answers (fill_result ?_ hfill) hw
  split_ifs <;> exact text_length_le (by decide)

theorem handleLogin_answers (hm : 68 ≤ memory.length)
    (h : handleLogin queued q w self memory = some (q', w')) :
    ∃ w₁, w.setAccountId (w.sessions self).handle 0 = some w₁ ∧
      Answered queued self ⟨.kLogin, field memory 4, field memory 36⟩
        (w.accounts.authenticate (field memory 4) (field memory 36) != 0) w₁ w' := by
  obtain ⟨⟨userId, password⟩, hcred, h⟩ := Option.bind_eq_some_iff.mp h
  rw [credentials_eq hm, Option.some.injEq, Prod.mk.injEq] at hcred
  obtain ⟨rfl, rfl⟩ := hcred
  obtain ⟨q₁, handle, q₂, -, h⟩ := withPacket_elim h
  obtain ⟨session, hsession, h⟩ := Option.bind_eq_some_iff.mp h
  obtain ⟨⟨w₁, success⟩, hlog, h⟩ := Option.bind_eq_some_iff.mp h
  obtain ⟨⟨q₃, response⟩, hfill, h⟩ := Option.bind_eq_some_iff.mp h
  obtain ⟨w₂, hw, h⟩ := Option.bind_eq_some_iff.mp h
  cases h
  obtain ⟨w₃, hset, hlog⟩ := Option.bind_eq_some_iff.mp hlog
  cases hlog
  rw [rd] at hsession
  split_ifs at hsession
  cases hsession
  refine ⟨w₁, hset, Server.sendPacket_answers (fill_result ?_ hfill) hw⟩
  split_ifs <;> exact text_length_le (by decide)

/-- A request is a registration or a login. -/
theorem requestOf_cases {r : Request} (hr : requestOf packet = some r) :
    (headerId packet = PacketId.kRegister.toNat ∧
        r = ⟨.kRegister, field packet 4, field packet 36⟩) ∨
      headerId packet = PacketId.kLogin.toNat ∧ r = ⟨.kLogin, field packet 4, field packet 36⟩ := by
  rw [requestOf] at hr
  split_ifs at hr with h₁ h₂
  · exact .inl ⟨h₁, (Option.some.inj hr).symm⟩
  · exact .inr ⟨h₂, (Option.some.inj hr).symm⟩

/-- A packet of full size lies at the front of the block it is copied to. -/
theorem received_full (hp : FullSize packet) {memory : List Byte}
    (h : received q packet = some memory) : ∃ rest, memory = packet ++ rest := by
  obtain ⟨⟨q₁, handle⟩, -, h⟩ := Option.bind_eq_some_iff.mp h
  obtain ⟨handle, -, h⟩ := Option.bind_eq_some_iff.mp h
  obtain ⟨⟨q₂, bytes⟩, hfill, h⟩ := Option.bind_eq_some_iff.mp h
  cases h
  rw [copyPacket_of_le _ _ (hp.size.le.trans hp.fits)] at hfill
  obtain ⟨b, c, hc, rfl⟩ := fill_elim hfill
  have hfull := hp.full
  obtain ⟨c', rest, hc', hbytes⟩ := b.copy_accepted []
    ⟨show 4 ≤ packet.length by omega, hp.size⟩ (hp.size.le.trans hp.fits)
  rw [List.append_nil, hc, Option.some.injEq] at hc'
  exact ⟨rest, hc' ▸ hbytes⟩

/-- **One request.**  The database answers it, and that answer is sent to the session; a
registration does nothing else. -/
theorem execute_answers (hp : FullSize packet) {r : Request} (hr : requestOf packet = some r)
    (h : execute queued q w self packet = some (q', w')) :
    ∃ w₁, Answered queued self r (w.accounts.answer r).1 w₁ w' ∧
      w₁.accounts = (w.accounts.answer r).2 ∧
      (r.id = .kRegister → w₁ = { w with accounts := (w.accounts.answer r).2 }) := by
  rcases requestOf_cases hr with ⟨hid, rfl⟩ | ⟨hid, rfl⟩
  · have hh : handlers queued (headerId packet) = some (handleRegister queued) := by
      rw [hid]
      rfl
    obtain ⟨q₁, q₂, memory, hmemory, h⟩ := execute_elim (hid ▸ by decide) hh h
    obtain ⟨rest, rfl⟩ := received_full hp hmemory
    obtain ⟨hlen, hf, hf'⟩ := field_full hp rest
    have hanswer := handleRegister_answers hlen h
    rw [hf, hf'] at hanswer
    exact ⟨_, hanswer, rfl, fun _ => rfl⟩
  · have hh : handlers queued (headerId packet) = some (handleLogin queued) := by
      rw [hid]
      rfl
    obtain ⟨q₁, q₂, memory, hmemory, h⟩ := execute_elim (hid ▸ by decide) hh h
    obtain ⟨rest, rfl⟩ := received_full hp hmemory
    obtain ⟨hlen, hf, hf'⟩ := field_full hp rest
    obtain ⟨w₁, hset, hanswer⟩ := handleLogin_answers hlen h
    rw [hf, hf'] at hanswer
    obtain ⟨held, -, rfl⟩ := Server.setAccountId_elim hset
    exact ⟨_, hanswer, rfl, fun e => nomatch e⟩

/-- What a request needs in order to be answered: two blocks, and a session that sends. -/
structure Serving (q : PacketPool) (w : Server) (slot : Nat) : Prop where
  room : Room 2 q
  inRange : slot < Config.kMaxSession
  settled : (w.sessions slot).sendOv.Settled
  handle : slotIndex (w.sessions slot).handle < Config.kMaxSession
  ptr : ∃ held, w.sessionPtrs (slotIndex (w.sessions slot).handle) = some held ∧
    slotIndex held < Config.kMaxSession

/-- The end of a handler that answers: the response is filled in and sent. -/
def respond (queued : Nat → Bool) (id : PacketId) (message : List Byte) (success : Bool) (w : Server)
    (self : Nat) (q : PacketPool) (slot : Nat) : Option (PacketPool × Server) := do
  let (q, response) ← fill q slot (resultPacket id message success)
  let w ← w.sendPacket queued self response
  return (q, w)

theorem respond_some (hroom : Room 1 q) (hs : self < Config.kMaxSession)
    (hset : (w.sessions self).sendOv.Settled)
    (hhandle : slotIndex (w.sessions self).handle < Config.kMaxSession) (id : PacketId)
    {message : List Byte} (success : Bool) (hm : message.length + 6 ≤ Config.kMaxPacketSize) :
    ∃ q' w', withPacket q (respond queued id message success w self) = some (q', w') ∧
      q'.set.Rep ∧ True := by
  refine withPacket_some hroom fun q₁ slot hslot hroom _ _ => ?_
  obtain ⟨c, hc, hcarries⟩ := resultPacket_carries id hm success (q₁.obj slot)
  obtain ⟨_, w', hw, -⟩ := Server.sendPacket_appends queued hs hset hhandle hcarries.mem
  refine ⟨{ q₁ with obj := upd q₁.obj slot c }, w', ?_, hroom.rep, trivial⟩
  have hfill : fill q₁ slot (resultPacket id message success) = _ := fill_some hslot hc
  simp only [respond, hfill, Option.bind_eq_bind, Option.bind_some, hw]
  rfl

/-- **A request is answered** when two blocks are left and its session can be sent to. -/
theorem execute_serves (hp : FullSize packet) {r : Request} (hr : requestOf packet = some r)
    (h : Serving q w self) : ∃ q' w', execute queued q w self packet = some (q', w') := by
  have hfull := hp.full
  have hframe : kHeaderSize ≤ packet.length ∧ headerSize packet = packet.length :=
    ⟨show 4 ≤ packet.length by omega, hp.size⟩
  have hfit : headerSize packet ≤ Config.kMaxPacketSize := hp.size.le.trans hp.fits
  rcases requestOf_cases hr with ⟨hid, -⟩ | ⟨hid, -⟩
  · have hh : handlers queued (headerId packet) = some (handleRegister queued) := by
      rw [hid]
      rfl
    obtain ⟨⟨success, accounts⟩, hreg⟩ :
        ∃ result, w.accounts.registerAccount (field packet 4) (field packet 36) = result := ⟨_, rfl⟩
    have hm : (if success then text "Registration successful"
        else text "ID already exists").length + 6 ≤ Config.kMaxPacketSize := by
      split_ifs <;> exact text_length_le (by decide)
    have hserved : ∃ q' w', execute queued q w self packet = some (q', w') ∧ q'.set.Rep ∧ True :=
      execute_some h.room hframe hfit (hid ▸ by decide) hh fun q₁ slot hroom => by
        have hbody : handleRegister queued q₁ w self
              (packet ++ (q.obj slot).bytes.drop packet.length) =
            withPacket q₁ (respond queued .kRegister (if success then text "Registration successful"
              else text "ID already exists") success { w with accounts } self) := by
          simp only [handleRegister, credentials_full hp, hreg, Option.bind_eq_bind, Option.bind_some]
          rfl
        rw [hbody]
        exact respond_some (w := { w with accounts }) hroom h.inRange h.settled h.handle .kRegister
          success hm
    obtain ⟨q', w', he, -⟩ := hserved
    exact ⟨q', w', he⟩
  · have hh : handlers queued (headerId packet) = some (handleLogin queued) := by
      rw [hid]
      rfl
    obtain ⟨held, hptr, hheld⟩ := h.ptr
    obtain ⟨w₁, hlog, hready⟩ := Server.logInSession_some h.handle hptr hheld (field packet 4)
      (field packet 36)
    generalize (w.accounts.authenticate (field packet 4) (field packet 36) != 0) = success at hlog
    have hserved : ∃ q' w', execute queued q w self packet = some (q', w') ∧ q'.set.Rep ∧ True :=
      execute_some h.room hframe hfit (hid ▸ by decide) hh fun q₁ slot hroom => by
        have hm : (if success then text "Login successful"
            else text "Invalid credentials").length + 6 ≤ Config.kMaxPacketSize := by
          split_ifs <;> exact text_length_le (by decide)
        have hbody : handleLogin queued q₁ w self (packet ++ (q.obj slot).bytes.drop packet.length) =
            withPacket q₁ (respond queued .kLogin (if success then text "Login successful"
              else text "Invalid credentials") success w₁ self) := by
          simp only [handleLogin, credentials_full hp, rd_of_lt h.inRange, hlog, Option.bind_eq_bind,
            Option.bind_some]
          rfl
        rw [hbody]
        exact respond_some hroom h.inRange ((hready self).1 ▸ h.settled) ((hready self).2 ▸ h.handle)
          .kLogin success hm
    obtain ⟨q', w', he, -⟩ := hserved
    exact ⟨q', w', he⟩

end PacketHandler

/-! ### Histories -/

/-- The server, with the requests executed so far and whether each was answered with success. -/
structure Ledger where
  pool : PacketPool
  server : Server
  log : List (Request × Bool)

namespace Ledger

inductive Event where
  /-- `Execute` of a request, for the session in slot `self`. -/
  | request (queued : Nat → Bool) (self : Nat) (packet : List Byte)
  /-- Anything that leaves the accounts alone. -/
  | other (pool : PacketPool) (server : Server)

def step (l : Ledger) : Event → Option Ledger
  | .request queued self packet => do
    let r ← requestOf packet
    let (pool, server) ← PacketHandler.execute queued l.pool l.server self packet
    return ⟨pool, server, l.log ++ [(r, (l.server.accounts.answer r).1)]⟩
  | .other pool server => some ⟨pool, { server with accounts := l.server.accounts }, l.log⟩

/-- A request comes in a packet of full size, and SQLite has a key left. -/
def Legit (l : Ledger) : Event → Prop
  | .request _ _ packet => FullSize packet ∧ l.server.accounts.seq < 2 ^ 63 - 1
  | .other .. => True

/-- What has been registered with success, in order. -/
def registered (log : List (Request × Bool)) : List (List Byte × List Byte) :=
  log.filterMap fun entry =>
    if entry.1.id = .kRegister ∧ entry.2 = true then some (entry.1.userId, entry.1.password) else none

theorem mem_registered {log : List (Request × Bool)} {userId password : List Byte} :
    (userId, password) ∈ registered log ↔ (⟨.kRegister, userId, password⟩, true) ∈ log := by
  simp only [registered, List.mem_filterMap]
  constructor
  · rintro ⟨⟨⟨id, u, pw⟩, b⟩, hmem, h⟩
    split_ifs at h with hcond
    obtain ⟨rfl, rfl⟩ := Prod.mk.inj (Option.some.inj h)
    obtain ⟨rfl, rfl⟩ := hcond
    exact hmem
  · intro hmem
    exact ⟨_, hmem, if_pos ⟨rfl, rfl⟩⟩

/-- The table is what has been registered. -/
structure Inv (l : Ledger) : Prop where
  keyed : l.server.accounts.Keyed
  rows : l.server.accounts.rows.map (fun row => (row.username, row.password)) = registered l.log

variable {l l' : Ledger} {es : List Event}

theorem Inv.registers (h : l.Inv) {userId : List Byte} :
    (∀ row ∈ l.server.accounts.rows, row.username ≠ userId) ↔
      ∀ password, (⟨.kRegister, userId, password⟩, true) ∉ l.log := by
  constructor
  · intro hrows password hmem
    rw [← mem_registered, ← h.rows] at hmem
    obtain ⟨row, hrow, he⟩ := List.mem_map.mp hmem
    exact hrows row hrow (Prod.mk.inj he).1
  · rintro hlog row hrow rfl
    refine hlog row.password (mem_registered.mp ?_)
    rw [← h.rows]
    exact List.mem_map.mpr ⟨row, hrow, rfl⟩

theorem Inv.logsIn (h : l.Inv) {userId password : List Byte} :
    (∃ row ∈ l.server.accounts.rows, row.username = userId ∧ row.password = password) ↔
      (⟨.kRegister, userId, password⟩, true) ∈ l.log := by
  rw [← mem_registered, ← h.rows, List.mem_map]
  simp only [Prod.mk.injEq]

/-- What a step executes is a request, and it is answered. -/
theorem step_request {queued : Nat → Bool} {self : Nat} {packet : List Byte}
    (h : l.step (.request queued self packet) = some l') :
    ∃ r, requestOf packet = some r ∧
      PacketHandler.execute queued l.pool l.server self packet = some (l'.pool, l'.server) ∧
      l'.log = l.log ++ [(r, (l.server.accounts.answer r).1)] := by
  obtain ⟨r, hr, h⟩ := Option.bind_eq_some_iff.mp h
  obtain ⟨⟨pool, server⟩, he, h⟩ := Option.bind_eq_some_iff.mp h
  cases h
  exact ⟨r, hr, he, rfl⟩

/-- A request leaves the table the database answered with. -/
theorem step_accounts {queued : Nat → Bool} {self : Nat} {packet : List Byte} (hp : FullSize packet)
    {r : Request} (hr : requestOf packet = some r)
    (h : l.step (.request queued self packet) = some l') :
    l'.server.accounts = (l.server.accounts.answer r).2 := by
  obtain ⟨r', hr', he, -⟩ := step_request h
  obtain rfl : r = r' := Option.some.inj (hr.symm.trans hr')
  obtain ⟨w₁, ⟨message, response, -, hsend, -⟩, haccounts, -⟩ := PacketHandler.execute_answers hp hr he
  exact (Server.sendPacket_accounts hsend).trans haccounts

/-- **One step.** -/
theorem step_inv (h : l.Inv) {e : Event} (hl : l.Legit e) (hs : l.step e = some l') : l'.Inv := by
  cases e with
  | other pool server =>
    cases hs
    exact ⟨h.keyed, h.rows⟩
  | request queued self packet =>
    obtain ⟨r, hr, -, hlog⟩ := step_request hs
    have hacc := step_accounts hl.1 hr hs
    by_cases hid : r.id = .kRegister
    · have hanswer : l.server.accounts.answer r =
          l.server.accounts.registerAccount r.userId r.password := if_pos hid
      rw [hanswer] at hacc hlog
      refine ⟨hacc ▸ AccountStore.registerAccount_keyed h.keyed, ?_⟩
      rw [hacc, hlog, registered, List.filterMap_append, ← registered, ← h.rows]
      cases hb : (l.server.accounts.registerAccount r.userId r.password).1 with
      | false =>
        rw [AccountStore.registerAccount_failure hb]
        simp
      | true =>
        rw [AccountStore.registerAccount_rows hb, List.map_append]
        simp [hid]
    · have hanswer : (l.server.accounts.answer r).2 = l.server.accounts := by
        rw [AccountStore.answer, if_neg hid]
      rw [hanswer] at hacc
      refine ⟨hacc ▸ h.keyed, ?_⟩
      rw [hacc, hlog, registered, List.filterMap_append, ← registered, ← h.rows]
      simp [hid]

theorem run_inv {q : PacketPool} {w : Server} (hempty : w.accounts = ⟨[], 0⟩)
    (r : Runs step Legit ⟨q, w, []⟩ es l) : l.Inv := by
  refine r.invariant ⟨?_, ?_⟩ fun _ _ _ h hl hs => step_inv h hl hs
  · rw [hempty]
    exact ⟨fun row h => (nomatch h), Int.le_refl 0⟩
  · rw [hempty]
    rfl

/-- **The account store law.**  After every history of registrations and logins: the next request is
executed to its end if two blocks are left and its session can be sent to, and then its session is
sent the answer that the log records.  A registration is answered with success exactly when no
earlier successful one had its id, and when it is not, nothing but that answer happens; a login is
answered with success exactly when an earlier successful registration had its id and password. -/
theorem account_store_law {q : PacketPool} {w : Server} (hempty : w.accounts = ⟨[], 0⟩)
    (run : Runs step Legit ⟨q, w, []⟩ es l) {queued : Nat → Bool} {self : Nat} {packet : List Byte}
    {r : Request} (hr : requestOf packet = some r) (hl : l.Legit (.request queued self packet)) :
    (PacketHandler.Serving l.pool l.server self →
      ∃ l', l.step (.request queued self packet) = some l') ∧
    ∀ l', l.step (.request queued self packet) = some l' →
      ∃ success w₁, l'.log = l.log ++ [(r, success)] ∧ Answered queued self r success w₁ l'.server ∧
        (r.id = .kRegister →
          (success = true ↔ ∀ password, (⟨.kRegister, r.userId, password⟩, true) ∉ l.log) ∧
          (success = false → w₁ = l.server)) ∧
        (r.id = .kLogin →
          (success = true ↔ (⟨.kRegister, r.userId, r.password⟩, true) ∈ l.log) ∧
          w₁.accounts = l.server.accounts) := by
  have hinv := run_inv hempty run
  refine ⟨fun hserving => ?_, fun l' hs => ?_⟩
  · obtain ⟨q', w', he⟩ : ∃ q' w',
        PacketHandler.execute queued l.pool l.server self packet = some (q', w') :=
      PacketHandler.execute_serves hl.1 hr hserving
    refine ⟨⟨q', w', l.log ++ [(r, (l.server.accounts.answer r).1)]⟩, ?_⟩
    simp only [step, hr, he, Option.bind_eq_bind, Option.bind_some]
    rfl
  · obtain ⟨r', hr', he, hlog⟩ := step_request hs
    obtain rfl : r = r' := Option.some.inj (hr.symm.trans hr')
    obtain ⟨w₁, hanswered, haccounts, hreg⟩ := PacketHandler.execute_answers hl.1 hr he
    refine ⟨_, w₁, hlog, hanswered, fun hid => ?_, fun hid => ?_⟩
    · have hanswer : l.server.accounts.answer r =
          l.server.accounts.registerAccount r.userId r.password := if_pos hid
      rw [hanswer]
      refine ⟨(AccountStore.registerAccount_success hl.2).trans hinv.registers, fun hfail => ?_⟩
      rw [hreg hid, hanswer, AccountStore.registerAccount_failure hfail]
    · have hanswer : l.server.accounts.answer r =
          (l.server.accounts.authenticate r.userId r.password != 0, l.server.accounts) :=
        if_neg (by rw [hid]; decide)
      rw [haccounts, hanswer]
      exact ⟨(AccountStore.authenticate_success hinv.keyed).trans hinv.logsIn, rfl⟩

/-- A packet with the id `A` and the password `B`. -/
def credentialsPacket (id : PacketId) : List Byte :=
  [68, 0] ++ leBytes 2 id.toNat ++ (65 :: List.replicate 31 0) ++ (66 :: List.replicate 31 0)

theorem stage_serving (accounts : AccountStore) :
    PacketHandler.Serving (PacketPool.blank 0) (stage accounts) 0 := by
  have hempty : ((stage accounts).sessions 0).sendOv.Empty := ⟨rfl, rfl, rfl⟩
  have hidx : slotIndex 0 < Config.kMaxSession := by decide
  exact ⟨PacketPool.blank_room 0, by decide, hempty.settled, hidx, 0, rfl, hidx⟩

theorem requestOf_register :
    requestOf (credentialsPacket .kRegister) = some ⟨.kRegister, [65], [66]⟩ := by decide +kernel

theorem requestOf_login :
    requestOf (credentialsPacket .kLogin) = some ⟨.kLogin, [65], [66]⟩ := by decide +kernel

/-- A registration and a login with the same id and password. -/
theorem account_store_law_login : ∃ es l l',
    Runs step Legit ⟨PacketPool.blank 0, stage ⟨[], 0⟩, []⟩ es l ∧
      l.step (.request (fun _ => true) 0 (credentialsPacket .kLogin)) = some l' ∧
      l'.log = [(⟨.kRegister, [65], [66]⟩, true), (⟨.kLogin, [65], [66]⟩, true)] := by
  have run₀ : Runs step Legit ⟨PacketPool.blank 0, stage ⟨[], 0⟩, []⟩ []
      ⟨PacketPool.blank 0, stage ⟨[], 0⟩, []⟩ := .refl
  have legit₁ : Legit ⟨PacketPool.blank 0, stage ⟨[], 0⟩, []⟩
      (.request (fun _ => true) 0 (credentialsPacket .kRegister)) :=
    ⟨⟨by decide, by decide, by decide⟩, show (0 : Int) < 2 ^ 63 - 1 by decide⟩
  obtain ⟨hserves, hlaw⟩ := account_store_law rfl run₀ requestOf_register legit₁
  obtain ⟨l₁, h₁⟩ := hserves (stage_serving ⟨[], 0⟩)
  obtain ⟨b₁, w₁, hlog₁, -, hreg, -⟩ := hlaw l₁ h₁
  obtain rfl : b₁ = true := (hreg rfl).1.mpr fun _ h => (nomatch h)
  -- between the two the pool and the sessions become what they were at first
  have back : l₁.step (.other (PacketPool.blank 0) (stage ⟨[], 0⟩)) =
      some ⟨PacketPool.blank 0, stage l₁.server.accounts, l₁.log⟩ := by
    rw [step, stage_accounts]
  have run₁ := (run₀.more legit₁ h₁).more (show l₁.Legit (.other _ _) from trivial) back
  have hseq : l₁.server.accounts.seq < 2 ^ 63 - 1 := by
    rw [step_accounts legit₁.1 requestOf_register h₁]
    exact show (1 : Int) < 2 ^ 63 - 1 by decide
  obtain ⟨hserves, hlaw⟩ := account_store_law rfl run₁ requestOf_login
    ⟨⟨by decide, by decide, by decide⟩, hseq⟩
  obtain ⟨l', h'⟩ := hserves (stage_serving _)
  obtain ⟨b, w, hlog, -, -, hlogin⟩ := hlaw l' h'
  obtain rfl : b = true := (hlogin rfl).1.mpr (by rw [hlog₁]; exact List.mem_cons_self)
  refine ⟨_, _, l', run₁, h', ?_⟩
  rw [hlog, hlog₁]
  rfl

end Ledger

end IocpServer
