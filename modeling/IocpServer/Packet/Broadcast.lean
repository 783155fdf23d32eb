import IocpServer.Packet.Effects
import IocpServer.Packet.Service
import IocpServer.Pool.SlotMap

/-!
# Packet — Broadcast

`Broadcast` over a population of sessions whose pointers and handles are in order: every connected
session but the sender gets the packet if its ring has room for it, and nothing else changes.

* `sendToSession_offers`: one session.
* `broadcast_offers`: all of them.
-/

namespace IocpServer

namespace Server

variable {queued : Nat → Bool} {w w' : Server} {header : List Byte}

/-- The session of the slot `k` can be found and sent to: its pointer and its handle are those of
the slot's present occupant, and its ring's positions are settled. -/
structure Linked (w : Server) (k : Nat) : Prop where
  inRange : k < Config.kMaxSession
  entry : w.sessionPtrs k = some (w.sessionPool.handle k)
  handle : (w.sessions k).handle = w.sessionPool.handle k
  settled : (w.sessions k).sendOv.Settled

/-- `w'` is `w` after the packet has been offered to the sessions of the slots `ks`. -/
structure Offered (ks : List Nat) (header : List Byte) (w w' : Server) : Prop where
  pool : w'.sessionPool = w.sessionPool
  ptrs : w'.sessionPtrs = w.sessionPtrs
  accounts : w'.accounts = w.accounts
  appended : ∀ k ∈ ks, (w.sessions k).HasRoom (headerSize header) →
    (w'.sessions k).sendOv.window =
      (w.sessions k).sendOv.window ++ header.take (headerSize header)
  full : ∀ k ∈ ks, ¬ (w.sessions k).HasRoom (headerSize header) → w'.sessions k = w.sessions k
  other : ∀ k ∉ ks, w'.sessions k = w.sessions k

/-- **`SendToSession`** to a session that can be found. -/
theorem sendToSession_offers (hrep : w.sessionPool.Rep) {k : Nat} (hk : w.Linked k)
    (hmem : headerSize header ≤ header.length) :
    ∃ w', w.sendToSession queued (w.sessionPool.handle k) header = some w' ∧
      Offered [k] header w w' := by
  have hlt : Config.kMaxSession < 2 ^ 32 := by decide
  have hidx : slotIndex (w.sessionPool.handle k) = k := hrep.slotIndex_handle hlt hk.inRange
  have hgen := hrep.slotGeneration_handle hlt hk.inRange
  have hvalid : w.sessionPool.isValid (w.sessionPool.handle k) = true := by
    rw [SparseSet.isValid, hidx, hgen]
    simp only [hk.inRange, SparseSet.cells, decide_true, Bool.and_true, beq_self_eq_true]
  have hget : w.getSession (w.sessionPool.handle k) = some (some (w.sessionPool.handle k)) := by
    rw [getSession, hidx, rd_of_lt hk.inRange, hk.entry]
  have hown : slotIndex (w.sessions k).handle < Config.kMaxSession := by
    rw [hk.handle, hidx]
    exact hk.inRange
  obtain ⟨t, w', hw', rfl, -, hroom, hfull⟩ :=
    sendPacket_appends queued hk.inRange hk.settled hown hmem
  refine ⟨{ w with sessions := upd w.sessions k t }, ?_, rfl, rfl, rfl, ?_, ?_, ?_⟩
  · simp only [sendToSession, hget, hvalid, hidx, if_true, Option.bind_eq_bind, Option.bind_some]
    exact hw'
  · intro j hj hroom'
    obtain rfl := List.mem_singleton.mp hj
    show (upd w.sessions j t j).sendOv.window = _
    rw [upd_same]
    exact hroom hroom'
  · intro j hj hfull'
    obtain rfl := List.mem_singleton.mp hj
    show upd w.sessions j t j = _
    rw [upd_same]
    exact hfull hfull'
  · intro j hj
    exact upd_other (fun e => hj (List.mem_singleton.mpr e)) _ _

/-- The packet is offered to one session after the other. -/
theorem foldlM_offers (hrep : w.sessionPool.Rep) {sessionHandle : Nat}
    (hmem : headerSize header ≤ header.length) {ks : List Nat} (hnodup : ks.Nodup)
    (hks : ∀ k ∈ ks, w.Linked k) :
    ∃ w', (ks.map w.sessionPool.handle).foldlM (fun w handle =>
        if handle = sessionHandle then some w else w.sendToSession queued handle header) w = some w' ∧
      Offered (ks.filter fun k => w.sessionPool.handle k ≠ sessionHandle) header w w' := by
  induction ks generalizing w with
  | nil => exact ⟨w, rfl, rfl, rfl, rfl, by simp, by simp, fun _ _ => rfl⟩
  | cons k ks ih =>
    obtain ⟨hnot, hnodup⟩ := List.nodup_cons.mp hnodup
    rw [List.forall_mem_cons] at hks
    obtain ⟨hk, hks⟩ := hks
    by_cases he : w.sessionPool.handle k = sessionHandle
    · obtain ⟨w', hw', ho⟩ := ih hrep hnodup hks
      refine ⟨w', ?_, ?_⟩
      · rw [List.map_cons, List.foldlM_cons, if_pos he]
        exact hw'
      · rw [List.filter_cons, if_neg (by simpa using he)]
        exact ho
    · obtain ⟨w₁, hw₁, ho₁⟩ : ∃ w₁, w.sendToSession queued (w.sessionPool.handle k) header = some w₁ ∧
          Offered [k] header w w₁ := sendToSession_offers hrep hk hmem
      have hsame : ∀ j ∈ ks, w₁.sessions j = w.sessions j := by
        intro j hj
        refine ho₁.other j fun h => hnot ?_
        rwa [← List.mem_singleton.mp h]
      have hlinked : ∀ j ∈ ks, w₁.Linked j := by
        intro j hj
        obtain ⟨h₁, h₂, h₃, h₄⟩ := hks j hj
        refine ⟨h₁, ?_, ?_, ?_⟩
        · rw [ho₁.ptrs, ho₁.pool]
          exact h₂
        · rw [hsame j hj, ho₁.pool]
          exact h₃
        · rw [hsame j hj]
          exact h₄
      obtain ⟨w', hw', ho⟩ := ih (ho₁.pool ▸ hrep) hnodup hlinked
      rw [ho₁.pool] at hw' ho
      have hout : k ∉ ks.filter fun k => w.sessionPool.handle k ≠ sessionHandle :=
        fun h => hnot (List.mem_of_mem_filter h)
      have hcons : (k :: ks).filter (fun k => w.sessionPool.handle k ≠ sessionHandle) =
          k :: ks.filter fun k => w.sessionPool.handle k ≠ sessionHandle := by
        rw [List.filter_cons, if_pos (by simpa using he)]
      refine ⟨w', ?_, ho.pool.trans ho₁.pool, ho.ptrs.trans ho₁.ptrs,
        ho.accounts.trans ho₁.accounts, ?_, ?_, ?_⟩
      · rw [List.map_cons, List.foldlM_cons, if_neg he, hw₁]
        exact hw'
      · rw [hcons, List.forall_mem_cons]
        refine ⟨fun hroom => ?_, fun j hj hroom => ?_⟩
        · rw [ho.other k hout]
          exact ho₁.appended k List.mem_cons_self hroom
        · have happ := ho.appended j hj
          rw [hsame j (List.mem_of_mem_filter hj)] at happ
          exact happ hroom
      · rw [hcons, List.forall_mem_cons]
        refine ⟨fun hfull => ?_, fun j hj hfull => ?_⟩
        · rw [ho.other k hout]
          exact ho₁.full k List.mem_cons_self hfull
        · have hrest := ho.full j hj
          rw [hsame j (List.mem_of_mem_filter hj)] at hrest
          exact hrest hfull
      · intro j hj
        rw [hcons, List.mem_cons, not_or] at hj
        rw [ho.other j hj.2]
        exact ho₁.other j fun h => hj.1 (List.mem_singleton.mp h)

/-- The slots in a state, as `GetIndicesInState` lists their handles. -/
theorem listed (hrep : w.sessionPool.Rep) {b : Nat} (hb : b < SessionState.kCnt.toNat) :
    ∃ ks : List Nat, w.sessionPool.getIndicesInState b = some (ks.map w.sessionPool.handle) ∧
      ks.Nodup ∧ ∀ k, k ∈ ks ↔ k < Config.kMaxSession ∧ (w.sessionPool.cells k).state = b := by
  have hlt : Config.kMaxSession < 2 ^ 32 := by decide
  obtain ⟨l, hl, hnodup, hmem⟩ := SparseSet.getIndicesInState_spec hrep hlt hb
  have hslot : ∀ x ∈ l, slotIndex x < Config.kMaxSession ∧
      (w.sessionPool.cells (slotIndex x)).state = b ∧ w.sessionPool.handle (slotIndex x) = x := by
    intro x hx
    obtain ⟨k, hk, hstate, rfl⟩ := (hmem x).mp hx
    rw [hrep.slotIndex_handle hlt hk]
    exact ⟨hk, hstate, rfl⟩
  refine ⟨l.map slotIndex, ?_, hnodup.map_on fun x hx y hy e => ?_, fun k => ⟨fun hk => ?_, ?_⟩⟩
  · have hback : l.map (w.sessionPool.handle ∘ slotIndex) = l.map id :=
      List.map_congr_left fun x hx => (hslot x hx).2.2
    rw [hl, List.map_map, hback, List.map_id]
  · rw [← (hslot x hx).2.2, e, (hslot y hy).2.2]
  · obtain ⟨x, hx, rfl⟩ := List.mem_map.mp hk
    exact ⟨(hslot x hx).1, (hslot x hx).2.1⟩
  · rintro ⟨hk, hstate⟩
    exact List.mem_map.mpr ⟨_, (hmem _).mpr ⟨k, hk, hstate, rfl⟩, hrep.slotIndex_handle hlt hk⟩

/-- **`Broadcast`** offers the packet to every connected session but the sender. -/
theorem broadcast_offers (hrep : w.sessionPool.Rep) {k : Nat} (hk : k < Config.kMaxSession)
    (hlinked : ∀ j < Config.kMaxSession,
      (w.sessionPool.cells j).state = SessionState.kConnected.toNat → w.Linked j)
    (hmem : headerSize header ≤ header.length) :
    ∃ ks w', w.broadcast queued (w.sessionPool.handle k) header = some w' ∧
      Offered ks header w w' ∧ ∀ j, j ∈ ks ↔ j < Config.kMaxSession ∧
        (w.sessionPool.cells j).state = SessionState.kConnected.toNat ∧ j ≠ k := by
  have hlt : Config.kMaxSession < 2 ^ 32 := by decide
  obtain ⟨ks, hlist, hnodup, hks⟩ :=
    listed hrep (show SessionState.kConnected.toNat < SessionState.kCnt.toNat by decide)
  have hconnected : ∀ j ∈ ks, w.Linked j := by
    intro j hj
    exact hlinked j ((hks j).mp hj).1 ((hks j).mp hj).2
  obtain ⟨w', hw', ho⟩ := foldlM_offers hrep hmem hnodup hconnected
  refine ⟨_, w', ?_, ho, fun j => ?_⟩
  · rw [broadcast, hlist]
    exact hw'
  · rw [List.mem_filter, hks, and_assoc, decide_eq_true_iff]
    refine and_congr_right fun hj => and_congr_right fun _ => not_congr ⟨fun e => ?_, fun e => e ▸ rfl⟩
    rw [← hrep.slotIndex_handle hlt hj, e, hrep.slotIndex_handle hlt hk]

end Server

end IocpServer
