import IocpServer.Packet.Handler
import IocpServer.Session.Send

/-!
# Packet — Service

What a call of `Execute` needs in order to return: blocks in the packet pool, and rings of the
sessions it sends to whose positions are settled.

* `withPacket_some`, `execute_returns`: the blocks.
* `sendPacket_appends`: the rings.
-/

namespace IocpServer

namespace PacketPool

variable {β : Type} {q : PacketPool}

/-- Free blocks for `n` packets. -/
structure Room (n : Nat) (q : PacketPool) : Prop where
  rep : q.set.Rep
  free : n ≤ q.free.card

/-- **A block taken and given back.**  What holds of the result of the body, for any block and with
one free block less, holds of the result of the whole. -/
theorem withPacket_some {n : Nat} (h : Room (n + 1) q)
    {body : PacketPool → Nat → Option (PacketPool × β)} {P : β → Prop}
    (hb : ∀ p slot, slot < Config.kMaxPacketCount → Room n p → p.obj slot = q.obj slot →
      q.Next slot → ∃ p' r, body p slot = some (p', r) ∧ p'.set.Rep ∧ P r) :
    ∃ q' r, withPacket q body = some (q', r) ∧ q'.set.Rep ∧ P r := by
  have hlt : Config.kMaxPacketCount < 2 ^ 32 := by decide
  have hne : q.free ≠ ∅ := by
    intro he
    have := h.free
    rw [he, Finset.card_empty] at this
    omega
  rcases SparsePool.acquire_spec h.rep hlt (by decide : 1 < 2) (by decide) id with
    ⟨slot, p, hslot, hacq, hrep, hfree, -, hobj⟩ | ⟨he, -⟩
  · have hs := (SparsePool.mem_free.mp hslot).1
    have hidx := h.rep.slotIndex_handle hlt hs
    have hroom : Room n p := by
      refine ⟨hrep, ?_⟩
      rw [hfree, Finset.card_erase_of_mem hslot]
      have := h.free
      omega
    obtain ⟨p', r, hbody, hrep', hP⟩ := hb p slot hs hroom (by rw [hobj, upd_same]; rfl)
      ⟨p, _, hacq, hidx⟩
    obtain ⟨q', hrel, hrep'', -⟩ :=
      SparsePool.releaseRef_spec hrep' hlt (by decide)
        (show slotIndex (q.set.handle slot) < Config.kMaxPacketCount from hidx.symm ▸ hs)
    refine ⟨q', r, ?_, hrep'', hP⟩
    simp only [withPacket, hacq, hidx, hbody, hrel, Option.bind_eq_bind, Option.bind_some]
    rfl
  · exact absurd he hne

end PacketPool

/-! ### Sending -/

/-- The ring has room for a packet of `n` bytes. -/
def Session.HasRoom (s : Session) (n : Nat) : Prop :=
  s.sendOv.window.length + n ≤ s.sendOv.buffer.size

instance (s : Session) (n : Nat) : Decidable (s.HasRoom n) := inferInstanceAs (Decidable (_ ≤ _))

/-- **`SendPacket`** appends the packet if the ring has room for it, and otherwise does nothing. -/
theorem Session.sendPacket_appends {s : Session} {header : List Byte} (h : s.sendOv.Settled)
    (hmem : headerSize header ≤ header.length) (ptr : Option Nat) (queued : Bool) :
    ∃ r, s.sendPacket header ptr queued = some r ∧ r.session.sendOv.Settled ∧
      (s.HasRoom (headerSize header) →
        r.session.sendOv.window = s.sendOv.window ++ header.take (headerSize header)) ∧
      (¬ s.HasRoom (headerSize header) → r.session = s) := by
  by_cases hroom : s.HasRoom (headerSize header)
  · obtain ⟨r, hr, -, -, hset, -, hwin, -⟩ := sendPacket_accept h hroom hmem ptr queued
    exact ⟨r, hr, hset, fun _ => hwin, fun hfull => absurd hroom hfull⟩
  · exact ⟨_, sendPacket_reject h (not_le.mp hroom) ptr queued, h, fun hroom' => absurd hroom' hroom,
      fun _ => rfl⟩

namespace Server

variable {w : Server}

/-- So does that of the session in a slot, and nothing else is changed. -/
theorem sendPacket_appends (queued : Nat → Bool) {slot : Nat} {header : List Byte}
    (hslot : slot < Config.kMaxSession)
    (hset : (w.sessions slot).sendOv.Settled)
    (hhandle : slotIndex (w.sessions slot).handle < Config.kMaxSession)
    (hmem : headerSize header ≤ header.length) :
    ∃ s w', w.sendPacket queued slot header = some w' ∧
      w' = { w with sessions := upd w.sessions slot s } ∧ s.sendOv.Settled ∧
      ((w.sessions slot).HasRoom (headerSize header) →
        s.sendOv.window = (w.sessions slot).sendOv.window ++ header.take (headerSize header)) ∧
      (¬ (w.sessions slot).HasRoom (headerSize header) → s = w.sessions slot) := by
  have hget : w.getSession (w.sessions slot).handle =
      some (w.sessionPtrs (slotIndex (w.sessions slot).handle)) := rd_of_lt hhandle _
  obtain ⟨r, hr, hset', hroom, hfull⟩ := Session.sendPacket_appends hset hmem
    (some (w.sessionPtrs (slotIndex (w.sessions slot).handle))).join (queued slot)
  refine ⟨r.session, _, ?_, rfl, hset', hroom, hfull⟩
  simp -implicitDefEqProofs only [sendPacket, rd_of_lt hslot, hget, hr, wr_of_lt hslot,
    Option.isNone_some, Bool.false_eq_true, and_false, if_false, Option.bind_eq_bind,
    Option.bind_some, Option.pure_def]

/-- `LogInSession` leaves every session as ready to send as it was. -/
theorem logInSession_some {handle held : Nat}
    (hhandle : slotIndex handle < Config.kMaxSession)
    (hptr : w.sessionPtrs (slotIndex handle) = some held) (hheld : slotIndex held < Config.kMaxSession)
    (userId password : List Byte) :
    ∃ w', w.logInSession handle userId password =
        some (w', w.accounts.authenticate userId password != 0) ∧
      ∀ k, (w'.sessions k).sendOv = (w.sessions k).sendOv ∧
        (w'.sessions k).handle = (w.sessions k).handle := by
  let s : Session := { w.sessions (slotIndex held) with accountId := 0 }
  refine ⟨{ w with sessions := upd w.sessions (slotIndex held) s }, ?_, fun k => ?_⟩
  · simp -implicitDefEqProofs only [logInSession, setAccountId, rd_of_lt hhandle, hptr,
      rd_of_lt hheld, wr_of_lt hheld, Option.bind_eq_bind, Option.bind_some, Option.pure_def, s]
  · by_cases hk : k = slotIndex held
    · subst hk
      simp only [upd_same, s, and_self]
    · simp only [upd_other hk, and_self]

end Server

/-! ### `Execute` -/

namespace PacketHandler

open PacketPool

/-- **`Execute` returns** if there are two blocks, the packet keeps inside the pool, and the handler,
which finds what of the packet is in its block with what was in the block behind it, returns with one
block less. -/
theorem execute_returns {queued : Nat → Bool} {q : PacketPool} (hroom : Room 2 q) {p : List Byte}
    {handler : PacketPool → Server → Nat → List Byte → Option (PacketPool × Server)}
    (hp : kHeaderSize ≤ p.length ∧ headerSize p = p.length) 
    (hfit : ∀ slot, q.Next slot →
      slot * kSlotSize + headerSize p ≤ Config.kMaxPacketCount * kSlotSize)
    (hid : headerId p < PacketId.kCnt.toNat)
    (hh : handlers queued (headerId p) = some handler) {w : Server} {self : Nat} {P : Server → Prop}
    (hb : ∀ q₁ slot, Room 1 q₁ → ∃ q' r,
      handler q₁ w self (p.take Config.kMaxPacketSize ++ (q.obj slot).bytes.drop p.length) =
        some (q', r) ∧ q'.set.Rep ∧ P r) :
    ∃ q' r, execute queued q w self p = some (q', r) ∧ q'.set.Rep ∧ P r := by
  obtain ⟨q', r, he, hrep, hP⟩ : ∃ q' r, withPacket q (fun q slot =>
      (copyPacket q slot p).bind fun x => handler x.1 w self x.2) = some (q', r) ∧
        q'.set.Rep ∧ P r := by
    refine withPacket_some hroom fun q₁ slot hs hroom hobj hnext => ?_
    obtain ⟨q₂, bytes, hc, hset, hbytes⟩ := copyPacket_some q₁ hs hp.2.le (hfit slot hnext)
    rw [hobj, hp.2, List.take_length] at hbytes
    have hroom₂ : Room 1 q₂ := by
      refine ⟨hset ▸ hroom.rep, ?_⟩
      rw [SparsePool.free, hset]
      exact hroom.free
    obtain ⟨q', r, hr, hrep, hP⟩ := hb q₂ slot hroom₂
    refine ⟨q', r, ?_, hrep, hP⟩
    simp only [hc, hbytes, Option.bind_some]
    exact hr
  refine ⟨q', r, ?_, hrep, hP⟩
  simp only [execute, if_neg hid.not_ge, hh]
  exact he

/-- A packet that fits in a block is found there. -/
theorem execute_some {queued : Nat → Bool} {q : PacketPool} (hroom : Room 2 q) {p : List Byte}
    {handler : PacketPool → Server → Nat → List Byte → Option (PacketPool × Server)}
    (hp : kHeaderSize ≤ p.length ∧ headerSize p = p.length)
    (hfit : headerSize p ≤ Config.kMaxPacketSize) (hid : headerId p < PacketId.kCnt.toNat)
    (hh : handlers queued (headerId p) = some handler) {w : Server} {self : Nat} {P : Server → Prop}
    (hb : ∀ q₁ slot, Room 1 q₁ → ∃ q' r,
      handler q₁ w self (p ++ (q.obj slot).bytes.drop p.length) = some (q', r) ∧ q'.set.Rep ∧ P r) :
    ∃ q' r, execute queued q w self p = some (q', r) ∧ q'.set.Rep ∧ P r := by
  have htake : p.take Config.kMaxPacketSize = p := List.take_of_length_le (hp.2 ▸ hfit)
  have hin : ∀ slot, q.Next slot →
      slot * kSlotSize + headerSize p ≤ Config.kMaxPacketCount * kSlotSize :=
    fun slot hnext => slot_fits (hnext.lt hroom.rep) (hfit.trans (by decide))
  refine execute_returns hroom hp hin hid hh fun q₁ slot hroom => ?_
  rw [htake]
  exact hb q₁ slot hroom

end PacketHandler

end IocpServer
