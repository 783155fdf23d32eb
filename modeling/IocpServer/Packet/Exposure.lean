import IocpServer.Packet.Residue
import IocpServer.Packet.Service
import IocpServer.Session.Send

/-!
# Packet — Exposure

Runs of `Execute` in which a byte left in a block comes out: over a connected neighbour, an empty
table, or a table with one account, and over pools all of whose blocks hold one byte.

* `execute_moves`, `execute_registers`, `execute_logs_in`: what `Execute` does there.
* `execute_two_run_iff`: for which packets nothing left in the blocks is seen.
-/

namespace IocpServer

open PacketPool PacketHandler

/-! ### A pool with free blocks -/

namespace PacketPool

/-- A pool no packet has been taken from, with the byte `x` all over its blocks. -/
def blank (x : Byte) : PacketPool := .new Config.kMaxPacketCount 2 fun _ => .filled x

theorem blank_room (x : Byte) : Room 2 (blank x) := by
  refine ⟨SparseSet.new_rep (by decide) (by decide), ?_⟩
  have hfree : (blank x).free = Finset.range Config.kMaxPacketCount :=
    Finset.filter_true_of_mem fun _ _ => rfl
  rw [hfree, Finset.card_range]
  decide

theorem blank_alike (x y : Byte) : SparsePool.Alike (blank x) (blank y) := ⟨rfl, rfl⟩

end PacketPool

/-! ### A server with a connected neighbour -/

/-- Slot 1 is connected, and every other slot idle. -/
def stagePool : SparseSet Config.kMaxSession SessionState.kCnt.toNat :=
  ((SparseSet.new _ _).moveToState 1 SessionState.kConnected.toNat).getD (.new _ _)

theorem stagePool_connected :
    stagePool.getIndicesInState SessionState.kConnected.toNat = some [1] := by decide +kernel

theorem stagePool_valid : stagePool.isValid 1 = true := by decide +kernel

/-- Every slot's session is fresh, with its index as its handle. -/
def stage (accounts : AccountStore) : Server where
  sessionPool := stagePool
  sessions w := { Session.fresh with handle := w }
  sessionPtrs w := some w
  accounts

theorem stage_accounts (a b : AccountStore) : { stage a with accounts := b } = stage b := by
  rw [stage, stage]

/-- A session with an empty ring takes any packet, and posts it. -/
theorem Server.sendPacket_window {w : Server} {slot : Nat} (h : slot < Config.kMaxSession)
    (hs : (w.sessions slot).sendOv.Empty)
    (hh : slotIndex (w.sessions slot).handle < Config.kMaxSession) {m payload : List Byte}
    (hc : Carries m payload) :
    ∃ w', w.sendPacket (fun _ => true) slot m = some w' ∧
      (w'.sessions slot).sendOv.window = payload ∧ w'.accounts = w.accounts := by
  have hn : (w.sessions slot).sendOv.buffer.size = 65536 := hs.size
  have hlt := headerSize_lt m
  have hroom : (w.sessions slot).HasRoom (headerSize m) := by
    rw [Session.HasRoom, hs.window, List.length_nil]
    omega
  obtain ⟨s, w', hw', rfl, -, hwin, -⟩ :=
    sendPacket_appends (fun _ => true) h hs.settled hh hc.mem
  refine ⟨_, hw', ?_, rfl⟩
  show (upd w.sessions slot s slot).sendOv.window = payload
  rw [upd_same, hwin hroom, hs.window, hc.1, List.nil_append, hc.2]

/-- A broadcast reaches the neighbour. -/
theorem stage_broadcast (accounts : AccountStore) {m payload : List Byte} (hc : Carries m payload) :
    ∃ w, (stage accounts).broadcast (fun _ => true) 0 m = some w ∧
      (w.sessions 1).sendOv.window = payload := by
  have hidx : slotIndex 1 < Config.kMaxSession := by decide
  obtain ⟨w, hw, hwin, -⟩ := Server.sendPacket_window (w := stage accounts)
    (show 1 < Config.kMaxSession by decide) ⟨rfl, rfl, rfl⟩ hidx hc
  refine ⟨w, ?_, hwin⟩
  have hget : (stage accounts).getSession 1 = some (some 1) := rd_of_lt (by decide) _
  have hidx : slotIndex 1 = 1 := by decide
  have hpool : (stage accounts).sessionPool = stagePool := by rw [stage]
  simp -implicitDefEqProofs only [Server.broadcast, Server.sendToSession, hpool, stagePool_connected,
    stagePool_valid, hget, hidx, hw, List.foldlM_cons, List.foldlM_nil, Option.bind_eq_bind,
    Option.bind_some, if_true, Nat.one_ne_zero, if_false]
  rfl

/-! ### What `Execute` does on it -/

namespace PacketHandler

variable {p : List Byte} (x : Byte)

/-- The bytes of the block `Execute` has copied `p` into. -/
def behind (p : List Byte) (x : Byte) : List Byte :=
  p ++ List.replicate (Config.kMaxPacketSize - p.length) x

theorem behind_length (hp : p.length ≤ Config.kMaxPacketSize) :
    (behind p x).length = Config.kMaxPacketSize := by
  rw [behind, List.length_append, List.length_replicate]
  omega

/-- `Execute` hands the handler the packet with what was in the block behind it. -/
theorem execute_behind {handler : PacketPool → Server → Nat → List Byte → Option (PacketPool × Server)}
    (hp : kHeaderSize ≤ p.length ∧ headerSize p = p.length)
    (hfit : headerSize p ≤ Config.kMaxPacketSize) (hid : headerId p < PacketId.kCnt.toNat)
    (hh : handlers (fun _ => true) (headerId p) = some handler) {w : Server} {self : Nat}
    {P : Server → Prop}
    (hb : ∀ q, Room 1 q → ∃ q' r, handler q w self (behind p x) = some (q', r) ∧ q'.set.Rep ∧ P r) :
    ∃ q r, execute (fun _ => true) (blank x) w self p = some (q, r) ∧ P r := by
  obtain ⟨q, r, he, -, hP⟩ := execute_some (P := P) (blank_room x) hp hfit hid hh
    fun q slot hroom => by
      have hbehind : p ++ ((blank x).obj slot).bytes.drop p.length = behind p x :=
        congrArg (p ++ ·) (List.drop_replicate ..)
      rw [hbehind]
      exact hb q hroom
  exact ⟨q, r, he, hP⟩

/-- A move is broadcast with the eight bytes behind the header. -/
theorem execute_moves (hp : kHeaderSize ≤ p.length ∧ headerSize p = p.length)
    (hfit : headerSize p ≤ Config.kMaxPacketSize) (hid : headerId p = PacketId.kMove.toNat)
    (accounts : AccountStore) :
    ∃ q w, execute (fun _ => true) (blank x) (stage accounts) 0 p = some (q, w) ∧
      (w.sessions 1).sendOv.window = moveBytes 0 (Slice.fetch 4 8 (behind p x)) := by
  have hh : handlers (fun _ => true) (headerId p) = some (handleMove fun _ => true) := by
    rw [hid]
    rfl
  refine execute_behind x hp hfit (hid ▸ by decide) hh
    (P := fun w => (w.sessions 1).sendOv.window = moveBytes 0 (Slice.fetch 4 8 (behind p x)))
    fun q hroom => ?_
  unfold handleMove
  refine withPacket_some hroom fun q slot hs hroom _ _ => ?_
  have hlen : 12 ≤ (behind p x).length := by
    rw [behind_length x (hp.2 ▸ hfit)]
    decide
  obtain ⟨c, hc, hcarries⟩ := movePacket_carries (q.obj slot) 0 hlen
  obtain ⟨w, hw, hwin⟩ := stage_broadcast accounts hcarries
  have hfill : fill q slot (movePacket · 0 (behind p x)) = _ := fill_some hs hc
  refine ⟨{ q with obj := upd q.obj slot c }, w, ?_, hroom.rep, hwin⟩
  have hself : rd Config.kMaxSession (stage accounts).sessions 0 =
      some { Session.fresh with handle := 0 } := rd_of_lt (by decide) _
  simp -implicitDefEqProofs only [hself, hfill, hw, Option.bind_eq_bind, Option.bind_some]
  rfl

/-- Into an empty table a registration goes with both its fields. -/
theorem execute_registers (hp : kHeaderSize ≤ p.length ∧ headerSize p = p.length)
    (hfit : headerSize p ≤ Config.kMaxPacketSize) (hid : headerId p = PacketId.kRegister.toNat) :
    ∃ q w, execute (fun _ => true) (blank x) (stage ⟨[], 0⟩) 0 p = some (q, w) ∧
      w.accounts = ⟨[⟨1, field (behind p x) 4, field (behind p x) 36⟩], 1⟩ := by
  have hh : handlers (fun _ => true) (headerId p) = some (handleRegister fun _ => true) := by
    rw [hid]
    rfl
  refine execute_behind x hp hfit (hid ▸ by decide) hh
    (P := fun w => w.accounts = ⟨[⟨1, field (behind p x) 4, field (behind p x) 36⟩], 1⟩)
    fun q hroom => ?_
  have hcred : credentials (behind p x) =
      some (field (behind p x) 4, field (behind p x) 36) := credentials_eq (by
    rw [behind_length x (hp.2 ▸ hfit)]
    decide)
  have hreg : ∀ u pw, (stage ⟨[], 0⟩).accounts.registerAccount u pw =
      (true, ⟨[⟨1, u, pw⟩], 1⟩) := by
    intro u pw
    rw [stage]
    rfl
  simp -implicitDefEqProofs only [handleRegister, hcred, hreg, stage_accounts, if_true, Option.bind_eq_bind,
    Option.bind_some]
  refine withPacket_some hroom fun q slot hs hroom _ _ => ?_
  obtain ⟨c, hc, hcarries⟩ := resultPacket_carries .kRegister
    (text_length_le (s := "Registration successful") (by decide)) true (q.obj slot)
  have hfill : fill q slot (resultPacket .kRegister (text "Registration successful") true) = _ :=
    fill_some hs hc
  have hidx : slotIndex 0 < Config.kMaxSession := by decide
  obtain ⟨w, hw, -, haccounts⟩ := Server.sendPacket_window
    (w := stage ⟨[⟨1, field (behind p x) 4, field (behind p x) 36⟩], 1⟩)
    (show 0 < Config.kMaxSession by decide) ⟨rfl, rfl, rfl⟩ hidx hcarries
  refine ⟨{ q with obj := upd q.obj slot c }, w, ?_, hroom.rep, haccounts⟩
  simp -implicitDefEqProofs only [hfill, hw, Option.bind_some]
  rfl

/-- One account is found by its own name and password only. -/
theorem authenticate_one (u pw u' pw' : List Byte) :
    (AccountStore.authenticate ⟨[⟨1, u, pw⟩], 1⟩ u' pw' != 0) = decide (u = u' ∧ pw = pw') := by
  by_cases h : u = u' ∧ pw = pw'
  · obtain ⟨rfl, rfl⟩ := h
    simp [AccountStore.authenticate]
  · have hmatch : (u == u' && pw == pw') = false := by
      rw [Bool.and_eq_false_iff, beq_eq_false_iff_ne, beq_eq_false_iff_ne]
      exact not_and_or.mp h
    simp [AccountStore.authenticate, hmatch, h]

/-- At a table of one account a login is answered by whether both its fields are that account's. -/
theorem execute_logs_in (hp : kHeaderSize ≤ p.length ∧ headerSize p = p.length)
    (hfit : headerSize p ≤ Config.kMaxPacketSize) (hid : headerId p = PacketId.kLogin.toNat)
    (u pw : List Byte) :
    ∃ q w m, execute (fun _ => true) (blank x) (stage ⟨[⟨1, u, pw⟩], 1⟩) 0 p = some (q, w) ∧
      (w.sessions 0).sendOv.window = resultBytes .kLogin m
        (decide (u = field (behind p x) 4 ∧ pw = field (behind p x) 36)) := by
  have hh : handlers (fun _ => true) (headerId p) = some (handleLogin fun _ => true) := by
    rw [hid]
    rfl
  have hcred : credentials (behind p x) =
      some (field (behind p x) 4, field (behind p x) 36) := credentials_eq (by
    rw [behind_length x (hp.2 ▸ hfit)]
    decide)
  generalize hsuccess : decide (u = field (behind p x) 4 ∧ pw = field (behind p x) 36) = success
  obtain ⟨q, w, he, hwin⟩ : ∃ q w,
      execute (fun _ => true) (blank x) (stage ⟨[⟨1, u, pw⟩], 1⟩) 0 p = some (q, w) ∧
        (w.sessions 0).sendOv.window = resultBytes .kLogin
          (if success then text "Login successful" else text "Invalid credentials") success := by
    refine execute_behind x hp hfit (hid ▸ by decide) hh
      (P := fun w => (w.sessions 0).sendOv.window = resultBytes .kLogin
        (if success then text "Login successful" else text "Invalid credentials") success)
      fun q hroom => ?_
    · simp -implicitDefEqProofs only [handleLogin, hcred, Option.bind_eq_bind, Option.bind_some]
      refine withPacket_some hroom fun q slot hs hroom _ _ => ?_
      have hself : rd Config.kMaxSession (stage ⟨[⟨1, u, pw⟩], 1⟩).sessions 0 =
          some { Session.fresh with handle := 0 } := rd_of_lt (by decide) _
      have hlt : slotIndex 0 < Config.kMaxSession := by decide
      obtain ⟨w, hlog, hready⟩ := Server.logInSession_some (w := stage ⟨[⟨1, u, pw⟩], 1⟩) hlt rfl hlt
        (field (behind p x) 4) (field (behind p x) 36)
      have hfound : ((stage ⟨[⟨1, u, pw⟩], 1⟩).accounts.authenticate (field (behind p x) 4)
          (field (behind p x) 36) != 0) = success := (authenticate_one u pw _ _).trans hsuccess
      rw [hfound] at hlog
      have hm : (if success then text "Login successful"
          else text "Invalid credentials").length + 6 ≤ Config.kMaxPacketSize := by
        split_ifs <;> exact text_length_le (by decide)
      obtain ⟨c, hc, hcarries⟩ := resultPacket_carries .kLogin hm success (q.obj slot)
      have hfill : fill q slot (resultPacket .kLogin _ success) = _ := fill_some hs hc
      obtain ⟨w', hw', hwin, -⟩ :=
        Server.sendPacket_window (w := w) (show 0 < Config.kMaxSession by decide)
          ((hready 0).1 ▸ ⟨rfl, rfl, rfl⟩) ((hready 0).2 ▸ hlt) hcarries
      refine ⟨{ q with obj := upd q.obj slot c }, w', ?_, hroom.rep, hwin⟩
      simp -implicitDefEqProofs only [hself, hlog, hfill, hw', Option.bind_some]
      rfl
  exact ⟨q, w, _, he, hwin⟩

/-- Where a packet does not determine a field, what was in the block shows in it. -/
theorem field_exposed {off : Nat} (h : ¬ Determined p off) (hoff : off + 32 ≤ Config.kMaxPacketSize)
    (hp : p.length ≤ Config.kMaxPacketSize) :
    field (behind p 0) off ≠ field (behind p 65) off := by
  have hm : off + 32 ≤ p.length + (Config.kMaxPacketSize - p.length) := by omega
  obtain ⟨k, hk⟩ : ∃ k, 32 - (p.length - off) = k + 1 :=
    ⟨31 - (p.length - off), by have := (not_or.mp h).1; omega⟩
  rw [behind, behind, field_residue h hm, field_residue h hm, hk]
  intro e
  have := congrArg List.head? (List.append_cancel_left e)
  simp [List.replicate_succ] at this

end PacketHandler

/-- `Execute` on the packet `p` has the same outcome whatever is in the packet pool's blocks, behind
`p` in its own as in the free ones. -/
def TwoRun (p : List Byte) : Prop :=
  ∀ (queued : Nat → Bool) (q₁ q₂ : PacketPool) (w : Server) (self : Nat) (t₁ t₂ : List Byte),
    SparsePool.Alike q₁ q₂ →
      (execute queued q₁ w self (p ++ t₁)).map Prod.snd =
        (execute queued q₂ w self (p ++ t₂)).map Prod.snd

namespace TwoRun

variable {p : List Byte}

/-- Two runs over pools of zeros and of `'A'`s. -/
theorem blank_eq (h : TwoRun p) {w w₁ w₂ : Server} {q₁ q₂ : PacketPool}
    (e₁ : execute (fun _ => true) (blank 0) w 0 p = some (q₁, w₁))
    (e₂ : execute (fun _ => true) (blank 65) w 0 p = some (q₂, w₂)) : w₁ = w₂ := by
  have e := h (fun _ => true) (blank 0) (blank 65) w 0 [] [] (blank_alike 0 65)
  rw [List.append_nil, e₁, e₂] at e
  exact Option.some.inj e

theorem move (h : TwoRun p) (hp : kHeaderSize ≤ p.length ∧ headerSize p = p.length)
    (hsize : headerSize p ≤ Config.kMaxPacketSize) (hid : headerId p = PacketId.kMove.toNat) :
    12 ≤ headerSize p := by
  by_contra hshort
  obtain ⟨q₁, w₁, e₁, win₁⟩ := execute_moves 0 hp hsize hid ⟨[], 0⟩
  obtain ⟨q₂, w₂, e₂, win₂⟩ := execute_moves 65 hp hsize hid ⟨[], 0⟩
  rw [h.blank_eq e₁ e₂, win₂, moveBytes, moveBytes] at win₁
  have hxy := List.append_cancel_left (List.append_cancel_left (List.append_cancel_left win₁))
  have hk : Config.kMaxPacketSize = 1024 := rfl
  have h4 : (4 : Nat) ≤ p.length := hp.1
  rw [behind, behind, Slice.fetch_append_replicate _ _ (by omega),
    Slice.fetch_append_replicate _ _ (by omega)] at hxy
  -- the packet ends before its coordinates do
  obtain ⟨k, hk⟩ : ∃ k, 8 - (p.length - 4) = k + 1 := ⟨7 - (p.length - 4), by omega⟩
  rw [hk] at hxy
  have hhead := congrArg List.head? (List.append_cancel_left hxy)
  simp [List.replicate_succ] at hhead

theorem credentials (h : TwoRun p) (hp : kHeaderSize ≤ p.length ∧ headerSize p = p.length)
    (hsize : headerSize p ≤ Config.kMaxPacketSize)
    (hid : headerId p = PacketId.kRegister.toNat ∨ headerId p = PacketId.kLogin.toNat) :
    Determined p 4 ∧ Determined p 36 := by
  have hlen : p.length ≤ Config.kMaxPacketSize := hp.2 ▸ hsize
  by_contra hundetermined
  have hexposed : field (behind p 0) 4 ≠ field (behind p 65) 4 ∨
      field (behind p 0) 36 ≠ field (behind p 65) 36 := by
    rcases not_and_or.mp hundetermined with hd | hd
    · exact .inl (field_exposed hd (by decide) hlen)
    · exact .inr (field_exposed hd (by decide) hlen)
  rcases hid with hid | hid
  · -- the account registered has one of the two fields
    obtain ⟨q₁, w₁, e₁, acc₁⟩ := execute_registers 0 hp hsize hid
    obtain ⟨q₂, w₂, e₂, acc₂⟩ := execute_registers 65 hp hsize hid
    rw [h.blank_eq e₁ e₂, acc₂] at acc₁
    simp only [AccountStore.mk.injEq, List.cons.injEq, AccountRow.mk.injEq, true_and,
      and_true] at acc₁
    exact hexposed.elim (fun hne => hne acc₁.1.symm) fun hne => hne acc₁.2.symm
  · -- the account of the first run is not found in the second
    obtain ⟨q₁, w₁, m₁, e₁, win₁⟩ :=
      execute_logs_in 0 hp hsize hid (field (behind p 0) 4) (field (behind p 0) 36)
    obtain ⟨q₂, w₂, m₂, e₂, win₂⟩ :=
      execute_logs_in 65 hp hsize hid (field (behind p 0) 4) (field (behind p 0) 36)
    have hfail : ¬ (field (behind p 0) 4 = field (behind p 65) 4 ∧
        field (behind p 0) 36 = field (behind p 65) 36) := not_and_or.mpr hexposed
    rw [h.blank_eq e₁ e₂, win₂, decide_eq_false hfail, decide_eq_true ⟨rfl, rfl⟩] at win₁
    have hflag := congrArg (fun l => (l.drop 4).head?) win₁
    simp [resultBytes, leBytes] at hflag

end TwoRun

/-- **Which packets see nothing of earlier ones.**  A move has to bring its coordinates, and a
registration or a login both its strings with their terminators, or all the bytes of their fields. -/
theorem execute_two_run_iff {p : List Byte}
    (hp : kHeaderSize ≤ p.length ∧ headerSize p = p.length)
    (hfit : headerSize p + 8 ≤ Config.kMaxPacketSize) :
    TwoRun p ↔ (headerId p = PacketId.kMove.toNat → 12 ≤ headerSize p) ∧
      (headerId p = PacketId.kRegister.toNat ∨ headerId p = PacketId.kLogin.toNat →
        Determined p 4 ∧ Determined p 36) := by
  have hsize : headerSize p ≤ Config.kMaxPacketSize := by omega
  constructor
  · intro h
    exact ⟨fun hid => h.move hp hsize hid, fun hid => h.credentials hp hsize hid⟩
  · rintro ⟨hmove, hcred⟩ queued q₁ q₂ w self t₁ t₂ hq
    refine Agree.map_eq (execute_agree queued w self hp hfit hmove hcred hq t₁ t₂) ?_
    intro a b hab
    exact hab.2

/-- A move of 12 bytes. -/
theorem execute_two_run_move : TwoRun [12, 0, 1, 0, 1, 2, 3, 4, 5, 6, 7, 8] :=
  (execute_two_run_iff ⟨by decide, by decide⟩ (by decide)).mpr (by decide)

/-- A move that ends with its header is broadcast with what was in the block. -/
theorem execute_two_run_short_move : ¬ TwoRun [4, 0, 1, 0] := by
  intro h
  exact absurd (h.move ⟨by decide, by decide⟩ (by decide) (by decide)) (by decide)

end IocpServer
