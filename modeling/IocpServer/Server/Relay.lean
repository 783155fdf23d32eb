import IocpServer.Packet.Relay
import IocpServer.Packet.Exposure
import IocpServer.Server.LifeCycle

/-!
# Server — Relay

Moves and chats in the states the server can be in: the session pool, the pointers and the handles
are those of a run of the engine, every ring has been used by `SendPacket` and `OnSend` only, and the
packet pool has been used by its own operations.

* `Good.linked`: a connected session has its pointer and its handle.
* `Sends.settled`: the positions of its ring are settled.
* `relay_iff`: a move or a chat is relayed if it is no longer than a slot and two blocks are free,
  and only then.
-/

namespace IocpServer

open PacketPool PacketHandler

/-- A session whose sending side has gone through calls of `SendPacket` and `OnSend` since it was
last reset.  Other functions leave it alone. -/
inductive Session.Sends : Session → Prop where
  | reset {s : Session} (h : s.sendOv.Empty) : Sends s
  | sendPacket {s : Session} {header : List Byte} {ptr : Option Nat} {queued : Bool} {r : Registered}
      (h : Sends s) (hmem : headerSize header ≤ header.length)
      (hr : s.sendPacket header ptr queued = some r) : Sends r.session
  | onSend {s : Session} {n : Nat} {ptr : Option Nat} {queued : Bool} {r : Registered}
      (h : Sends s) (hn : n ≤ s.sendOv.window.length) (hr : s.onSend n ptr queued = some r) :
      Sends r.session
  | other {s s' : Session} (h : Sends s) (hov : s'.sendOv = s.sendOv) : Sends s'

/-- Whatever becomes of each `WSASend`, the positions stay settled. -/
theorem Session.Sends.settled {s : Session} (h : s.Sends) : s.sendOv.Settled := by
  induction h with
  | reset h => exact h.settled
  | sendPacket _ hmem hr ih =>
    obtain ⟨r', hr', hset, -⟩ := Session.sendPacket_appends ih hmem _ _
    obtain rfl := Option.some.inj (hr'.symm.trans hr)
    exact hset
  | @onSend s n ptr queued r _ hn hr ih =>
    have hsending : s.isSending = true := by
      rw [Session.onSend] at hr
      split at hr
      · assumption
      · cases hr
    obtain ⟨r', hr', hset, -⟩ := Session.onSend_spec ih hsending hn ptr queued
    obtain rfl := Option.some.inj (hr'.symm.trans hr)
    exact hset
  | other _ hov ih => exact hov ▸ ih

namespace Engine

variable {ι : Type} {N : Nat} {s : Engine ι N} [Fintype ι]

/-- A connected session is entered under its present handle. -/
theorem Good.linked (hg : s.Good) {k : Nat} (hk : k < N)
    (hc : (s.set.cells k).state = SessionState.kConnected.toNat) :
    s.sessionPtrs k = some (s.set.handle k) ∧ (s.sessions k).handle = s.set.handle k := by
  have hb := hg.base k hk
  have hstate : (s.view k).cell.state = 2 := hc
  have hcr : num Instr.creates (s.codeAt k) = 0 := by
    by_contra hne
    have := (hb.creating (Nat.pos_of_ne_zero hne)).1
    omega
  -- its pointer would only be gone if its disconnect had been processed
  have hbefore := hb.before (.inr hstate)
  have hsets := Instr.setsState_le (s.codeAt k)
  have hentered := hb.entered (by omega) hcr
  have hentry : refs (s.view k).entry = 1 := by omega
  refine ⟨?_, hb.handle_eq (by omega) hcr⟩
  obtain ⟨g, he⟩ : ∃ g, (s.view k).entry = some g := by
    cases he : (s.view k).entry with
    | none =>
      rw [he] at hentry
      cases hentry
    | some g => exact ⟨g, rfl⟩
  have hg := hb.entry_eq g he
  rw [hg] at he
  exact he

end Engine

/-- The packet pool and the server in a state they can be in. -/
structure Reached (q : PacketPool) (w : Server) : Prop where
  packets : ∃ ops : List SparseSet.Op, (∀ op ∈ ops, op.InRange Config.kMaxPacketCount) ∧
    exec SparseSet.step (.new Config.kMaxPacketCount 2) ops = some q.set
  sessions : ∃ (threads kMaxAccept : Nat) (es : List (Engine.Event (Fin threads)))
    (s : Engine (Fin threads) Config.kMaxSession),
    Runs (Engine.step kMaxAccept) (fun s _ => s.Fits) (Engine.start (Fin threads) _) es s ∧
      w.sessionPool = s.set ∧ w.sessionPtrs = s.sessionPtrs ∧
      ∀ k, (w.sessions k).handle = (s.sessions k).handle
  rings : ∀ k < Config.kMaxSession, (w.sessions k).Sends

theorem Reached.rep {q : PacketPool} {w : Server} (h : Reached q w) : q.set.Rep := by
  obtain ⟨ops, hops, hexec⟩ := h.packets
  have hlt : Config.kMaxPacketCount < 2 ^ 32 := by decide
  obtain ⟨set, hset, hrep⟩ := SparseSet.exec_rep hlt (show 1 ≤ 2 by decide) ops
    (SparseSet.new_rep hlt (by decide)) hops
  obtain rfl := Option.some.inj (hset.symm.trans hexec)
  exact hrep

/-- A connected sender, and whom it is relayed to. -/
theorem Reached.relaying {q : PacketPool} {w : Server} (h : Reached q w) {self : Nat}
    (hself : self < Config.kMaxSession)
    (hc : (w.sessionPool.cells self).state = SessionState.kConnected.toNat) : Relaying w self := by
  obtain ⟨threads, kMaxAccept, es, s, run, hpool, hptrs, hhandles⟩ := h.sessions
  have hlt : Config.kMaxSession < 2 ^ 32 := by decide
  have hg := Engine.run_good hlt (fun _ _ hfits => hfits) run
  have hlinked : ∀ k < Config.kMaxSession,
      (w.sessionPool.cells k).state = SessionState.kConnected.toNat → w.Linked k := by
    intro k hk hstate
    rw [hpool] at hstate
    obtain ⟨hptr, hhandle⟩ := hg.linked hk hstate
    refine ⟨hk, ?_, ?_, (h.rings k hk).settled⟩
    · rw [hptrs, hpool]
      exact hptr
    · rw [hhandles, hpool]
      exact hhandle
  have hhandle := (hlinked self hself hc).handle
  refine ⟨⟨hpool ▸ hg.rep, hlinked⟩, hself, hhandle, ?_⟩
  rw [hhandle, hpool]
  exact packHandle_lt (hg.rep.generation_lt self hself) (hself.trans hlt)

/-- `Execute`, on a packet at the start of its memory, appends exactly one packet for every
connected session but the sender whose ring has room for it, and that packet says what the sender's
said; no other session is changed. -/
def RelaysPacket (queued : Nat → Bool) (q : PacketPool) (w : Server) (self : Nat)
    (packet behind : List Byte) : Prop :=
  ∃ q' w' b m, execute queued q w self (packet ++ behind) = some (q', w') ∧
    Relayed.decode b = some m ∧ Relayed.said (w.sessions self).handle packet = some m ∧
    w.Relays self b w'

/-- **Relay.**  In every state the server can be in, a move or a chat of a connected session is
relayed exactly if two blocks are free and its copy, which starts at the first of them, ends inside
the packet pool. -/
theorem relay_iff {q : PacketPool} {w : Server} (h : Reached q w) (queued : Nat → Bool) {self : Nat}
    (hself : self < Config.kMaxSession)
    (hc : (w.sessionPool.cells self).state = SessionState.kConnected.toNat) {packet : List Byte}
    (hp : Relayable packet) (behind : List Byte) :
    RelaysPacket queued q w self packet behind ↔
      2 ≤ q.free.card ∧ ∀ slot, q.Next slot →
        slot * kSlotSize + headerSize packet ≤ Config.kMaxPacketCount * kSlotSize := by
  rw [RelaysPacket, execute_append hp.frame]
  constructor
  · rintro ⟨q', w', b, m, he, -⟩
    exact execute_needs hp h.rep he
  · rintro ⟨hfree, hfit⟩
    exact execute_relays hp hfit ⟨h.rep, hfree⟩ (h.relaying hself hc)

/-- Two clients are accepted, in the first and the last slot. -/
def twoConnected {ι : Type} (a : ι) : List (Engine.Event ι) :=
  .postAccept a :: Engine.runs a 25 ++
    .accepted 0 :: .dequeue a 0 .recv true false :: Engine.runs a 29 ++
    .accepted 4095 :: .dequeue a 4095 .recv true false :: Engine.runs a 29

/-- As many packets are taken as are free. -/
theorem exhaust {N stateCount : Nat} (hN : N < 2 ^ 32) (hK : 1 < stateCount) :
    ∀ (k : Nat) {s : SparseSet N stateCount}, s.Rep →
      ((Finset.range N).filter fun w => (s.cells w).state = 0).card = k →
      ∃ t, exec SparseSet.step s (List.replicate k (.pop 1)) = some t ∧
        ∀ w < N, (t.cells w).state ≠ 0
  | 0, s, _, hcard => by
      refine ⟨s, rfl, fun w hw h0 => ?_⟩
      have hmem : w ∈ (Finset.range N).filter fun w => (s.cells w).state = 0 :=
        Finset.mem_filter.mpr ⟨Finset.mem_range.mpr hw, h0⟩
      rw [Finset.card_eq_zero.mp hcard] at hmem
      exact absurd hmem (Finset.notMem_empty w)
  | k + 1, s, hrep, hcard => by
      rcases SparseSet.pop_spec hrep hN hK with ⟨w, s', hw, h0, hpop, hrep', hcells⟩ | ⟨-, hnone⟩
      · have herase : ((Finset.range N).filter fun x => (s'.cells x).state = 0) =
            ((Finset.range N).filter fun x => (s.cells x).state = 0).erase w := by
          ext x
          rw [hcells]
          by_cases hx : x = w
          · subst hx
            simp
          · simp [hx]
        obtain ⟨t, ht, hall⟩ := exhaust hN hK k hrep' (by
          rw [herase, Finset.card_erase_of_mem
            (Finset.mem_filter.mpr ⟨Finset.mem_range.mpr hw, h0⟩), hcard]
          rfl)
        refine ⟨t, ?_, hall⟩
        rw [List.replicate_succ, exec_cons, SparseSet.step, hpop]
        exact ht
      · have hempty : ((Finset.range N).filter fun x => (s.cells x).state = 0) = ∅ :=
          Finset.filter_eq_empty_iff.mpr fun x hx => hnone x (Finset.mem_range.mp hx)
        rw [hempty] at hcard
        cases hcard

/-- A pool whose blocks are all taken. -/
theorem taken_packets : ∃ q : PacketPool, q.free.card = 0 ∧
    ∃ ops : List SparseSet.Op, (∀ op ∈ ops, op.InRange Config.kMaxPacketCount) ∧
      exec SparseSet.step (.new Config.kMaxPacketCount 2) ops = some q.set := by
  have hnew : (SparseSet.new Config.kMaxPacketCount 2).Rep :=
    SparseSet.new_rep (by decide) (by decide)
  obtain ⟨t, ht, hall⟩ := exhaust (by decide) (by decide) _ hnew rfl
  refine ⟨⟨t, fun _ => 1, fun _ => .filled 0⟩, ?_, _, fun op hop => ?_, ht⟩
  · refine Finset.card_eq_zero.mpr (Finset.filter_eq_empty_iff.mpr fun x hx => ?_)
    exact hall x (Finset.mem_range.mp hx)
  · rw [List.eq_of_mem_replicate hop]
    trivial

/-- Two connected sessions with empty rings, beside any packets that are taken. -/
theorem twoConnected_reached : ∃ w : Server, (∀ q : PacketPool,
      (∃ ops : List SparseSet.Op, (∀ op ∈ ops, op.InRange Config.kMaxPacketCount) ∧
        exec SparseSet.step (.new Config.kMaxPacketCount 2) ops = some q.set) → Reached q w) ∧
    (w.sessionPool.cells 0).state = SessionState.kConnected.toNat ∧
    (w.sessionPool.cells 4095).state = SessionState.kConnected.toNat := by
  have hexec : (execIf (fun s _ => decide s.Fits) (Engine.step 2)
      (Engine.start (Fin 1) Config.kMaxSession) (twoConnected 0)).map
        (fun s => ((s.set.cells 0).state, (s.set.cells 4095).state)) = some (2, 2) := by
    decide +kernel
  obtain ⟨s, hs, hstates⟩ := Option.map_eq_some_iff.mp hexec
  have run : Runs (Engine.step 2) (fun s _ => s.Fits) (Engine.start (Fin 1) Config.kMaxSession)
      (twoConnected 0) s :=
    Runs.of_execIf (I := fun _ => True) (fun _ _ _ h => of_decide_eq_true h)
      (fun _ _ _ _ _ _ => trivial) trivial hs
  refine ⟨⟨s.set, fun k => { Session.fresh with handle := (s.sessions k).handle }, s.sessionPtrs,
    ⟨[], 0⟩⟩, fun q hq => ⟨hq, ⟨1, 2, twoConnected 0, s, run, rfl, rfl, fun _ => rfl⟩,
      fun k _ => .reset ⟨rfl, rfl, rfl⟩⟩, (Prod.mk.inj hstates).1, (Prod.mk.inj hstates).2⟩

/-- The move of 12 bytes that a client sends. -/
def shortMove : List Byte := [12, 0, 1, 0, 1, 2, 3, 4, 5, 6, 7, 8]

/-- It is relayed to the other while all blocks are free. -/
theorem relay_iff_move : ∃ w : Server, Reached (blank 0) w ∧
    RelaysPacket (fun _ => true) (blank 0) w 0 shortMove [] ∧
    (w.sessionPool.cells 4095).state = SessionState.kConnected.toNat := by
  obtain ⟨w, h, h₀, h₁⟩ := twoConnected_reached
  have hreached : Reached (blank 0) w := h _ ⟨[], by simp, rfl⟩
  refine ⟨w, hreached, ?_, h₁⟩
  exact (relay_iff hreached _ (by decide) h₀ ⟨by decide, by decide⟩ []).mpr
    ⟨(blank_room 0).free, fun slot hnext => slot_fits (hnext.lt (blank_room 0).rep) (by decide)⟩

/-- **It is not while every block is taken**: `Execute` goes through the `nullptr` that
`AcquirePacket` returns. -/
theorem shortMove_not_relayed : ∃ (q : PacketPool) (w : Server), Reached q w ∧ q.free.card = 0 ∧
    (w.sessionPool.cells 0).state = SessionState.kConnected.toNat ∧
    (w.sessionPool.cells 4095).state = SessionState.kConnected.toNat ∧ Relayable shortMove ∧
    ¬ RelaysPacket (fun _ => true) q w 0 shortMove [] := by
  obtain ⟨w, h, h₀, h₁⟩ := twoConnected_reached
  obtain ⟨q, hq, hops⟩ := taken_packets
  have hreached : Reached q w := h q hops
  have hp : Relayable shortMove := ⟨by decide, by decide⟩
  refine ⟨q, w, hreached, hq, h₀, h₁, hp, ?_⟩
  rintro ⟨q', w', b, m, he, -⟩
  rw [execute_append hp.frame] at he
  have hfree := (execute_needs hp hreached.rep he).1
  omega

end IocpServer
