import IocpServer.Packet.Handler
import Mathlib.Data.List.TakeWhile

/-!
# Packet — Residue

Two runs of `Execute` on one packet, from packet pools that differ in what earlier packets have left
in their blocks.

* `withPacket_agree`, `fill_agree`: a block taken, filled and given back in both runs.
* `execute_two_run_iff`: the runs have the same outcome, whatever is in the blocks, exactly for the
  packets that bring everything their handler reads.
-/

namespace IocpServer

namespace PacketPool

variable {β : Type} {q q₁ q₂ : PacketPool}

/-- Results that differ in what is left in the blocks only. -/
def Same (a b : PacketPool × β) : Prop := SparsePool.Alike a.1 b.1 ∧ a.2 = b.2

/-- Two memories that begin with the same packet. -/
def SamePacket (m₁ m₂ : List Byte) : Prop := ∃ payload, Carries m₁ payload ∧ Carries m₂ payload

theorem withPacket_agree (h : SparsePool.Alike q₁ q₂)
    {f₁ f₂ : PacketPool → Nat → Option (PacketPool × β)}
    (hf : ∀ p₁ p₂ slot, SparsePool.Alike p₁ p₂ → Agree Same (f₁ p₁ slot) (f₂ p₂ slot)) :
    Agree Same (withPacket q₁ f₁) (withPacket q₂ f₂) := by
  refine Agree.bind (SparsePool.acquire_agree h id 1) ?_
  rintro ⟨p₁, packet⟩ ⟨p₂, _⟩ ⟨hp, rfl⟩
  cases packet with
  | none => exact .none
  | some handle =>
      simp only [Option.bind_eq_bind, Option.bind_some]
      refine Agree.bind (hf p₁ p₂ (slotIndex handle) hp) ?_
      rintro ⟨r₁, x⟩ ⟨r₂, _⟩ ⟨hr, rfl⟩
      refine Agree.bind (SparsePool.releaseRef_agree hr handle) ?_
      intro s₁ s₂ hs
      exact .some ⟨hs, rfl⟩

theorem fill_agree (h : SparsePool.Alike q₁ q₂) (slot : Nat) {R : List Byte → List Byte → Prop}
    {g₁ g₂ : PacketBlock → Option PacketBlock}
    (hg : ∀ b₁ b₂, Agree (fun c₁ c₂ => R c₁.bytes c₂.bytes) (g₁ b₁) (g₂ b₂)) :
    Agree (fun a b => SparsePool.Alike a.1 b.1 ∧ R a.2 b.2) (fill q₁ slot g₁) (fill q₂ slot g₂) := by
  by_cases hs : slot < Config.kMaxPacketCount
  · simp only [fill, rd_of_lt hs, Option.bind_eq_bind, Option.bind_some]
    refine Agree.bind (hg (q₁.obj slot) (q₂.obj slot)) ?_
    intro c₁ c₂ hc
    exact .some ⟨h, hc⟩
  · simp only [fill, rd, if_neg hs, Option.bind_eq_bind, Option.bind_none]
    exact .none

end PacketPool

open PacketPool

/-- Only the packet at the front of its memory is sent. -/
theorem Session.sendPacket_same {m₁ m₂ : List Byte} (h : SamePacket m₁ m₂) (s : Session)
    (ptr : Option Nat) (queued : Bool) :
    s.sendPacket m₁ ptr queued = s.sendPacket m₂ ptr queued := by
  obtain ⟨payload, ⟨h₁, e₁⟩, h₂, e₂⟩ := h
  have l₁ : ¬ m₁.length < payload.length := by
    rw [← e₁, List.length_take]
    omega
  have l₂ : ¬ m₂.length < payload.length := by
    rw [← e₂, List.length_take]
    omega
  simp only [sendPacket, h₁, h₂, e₁, e₂, if_neg l₁, if_neg l₂]

namespace Server

variable {m₁ m₂ : List Byte} (queued : Nat → Bool)

theorem sendPacket_same (h : SamePacket m₁ m₂) (w : Server) (slot : Nat) :
    w.sendPacket queued slot m₁ = w.sendPacket queued slot m₂ := by
  simp only [sendPacket, Session.sendPacket_same h]

theorem broadcast_same (h : SamePacket m₁ m₂) (w : Server) (handle : Nat) :
    w.broadcast queued handle m₁ = w.broadcast queued handle m₂ := by
  simp only [broadcast, sendToSession, sendPacket_same queued h]

end Server

/-! ### What a handler reads -/

/-- The string in the 32 bytes at `off` of a packet. -/
def field (memory : List Byte) (off : Nat) : List Byte :=
  (Slice.fetch off 32 memory).takeWhile (· != 0)

/-- The packet `p` brings all 32 bytes at `off`, or a terminator among those it brings. -/
def Determined (p : List Byte) (off : Nat) : Prop :=
  off + 32 ≤ p.length ∨ 0 ∈ Slice.fetch off 32 p

instance (p : List Byte) (off : Nat) : Decidable (Determined p off) :=
  inferInstanceAs (Decidable (_ ∨ _))

/-- The bytes up to `strnlen` are those before the terminator. -/
theorem take_strnlen {bs : List Byte} {n : Nat} (h : bs.length = n) :
    bs.take (strnlen bs n) = bs.takeWhile (· != 0) := by
  rw [strnlen, List.take_of_length_le h.le]
  exact (List.prefix_iff_eq_take.mp (List.takeWhile_prefix _)).symm

theorem credentials_eq {memory : List Byte} (h : 68 ≤ memory.length) :
    PacketHandler.credentials memory = some (field memory 4, field memory 36) := by
  have hid : (Slice.fetch 4 32 memory).length = 32 := Slice.fetch_length (by omega)
  have hpw : (Slice.fetch 36 32 memory).length = 32 := Slice.fetch_length (by omega)
  have r₁ : readAt memory 4 Config.kIdLength = some (Slice.fetch 4 32 memory) :=
    readAt_of_le (show 4 + 32 ≤ memory.length by omega)
  have r₂ : readAt memory (4 + Config.kIdLength) Config.kPasswordLength =
      some (Slice.fetch 36 32 memory) := readAt_of_le (show 36 + 32 ≤ memory.length by omega)
  simp only [PacketHandler.credentials, r₁, r₂, Option.bind_eq_bind, Option.bind_some]
  exact congrArg some (Prod.ext (take_strnlen hid) (take_strnlen hpw))

/-- A terminated field is the same whatever lies behind the packet. -/
theorem field_append {p : List Byte} {off : Nat} (h : Determined p off) (t : List Byte) :
    field (p ++ t) off = field p off := by
  unfold field
  rcases h with h | h
  · rw [Slice.fetch_append_left h]
  · have hoff : off ≤ p.length := by
      by_contra hout
      rw [Slice.fetch, List.drop_eq_nil_of_le (by omega), List.take_nil] at h
      exact List.not_mem_nil h
    have hstop : ¬ ((Slice.fetch off 32 p).takeWhile (· != 0)).length =
        (Slice.fetch off 32 p).length := by
      intro hlen
      have hself := (List.takeWhile_prefix (l := Slice.fetch off 32 p) (· != 0)).eq_of_length hlen
      have hne := List.takeWhile_eq_self_iff.mp hself 0 h
      exact absurd hne (by decide)
    rw [Slice.fetch_append hoff, List.takeWhile_append, if_neg hstop]

/-- Any other field takes in a byte left behind the packet. -/
theorem field_residue {p : List Byte} {off m : Nat} (h : ¬ Determined p off)
    (hm : off + 32 ≤ p.length + m) (x : Byte) : field (p ++ List.replicate m x) off =
      Slice.fetch off 32 p ++
        (List.replicate (32 - (p.length - off)) x).takeWhile (· != 0) := by
  obtain ⟨-, hzero⟩ := not_or.mp h
  unfold field
  rw [Slice.fetch_append_replicate m x hm, List.takeWhile_append_of_pos]
  intro b hb
  rw [bne_iff_ne]
  rintro rfl
  exact hzero hb

/-! ### Two runs of a handler -/

namespace PacketHandler

variable {q₁ q₂ : PacketPool} (queued : Nat → Bool) (w : Server) (self : Nat)

/-- Replies that carry the same packet. -/
theorem agree_of_carries {g₁ g₂ : PacketBlock → Option PacketBlock} {payload : List Byte}
    (h₁ : ∀ b, ∃ c, g₁ b = some c ∧ Carries c.bytes payload)
    (h₂ : ∀ b, ∃ c, g₂ b = some c ∧ Carries c.bytes payload) (b₁ b₂ : PacketBlock) :
    Agree (fun c₁ c₂ => SamePacket c₁.bytes c₂.bytes) (g₁ b₁) (g₂ b₂) := by
  obtain ⟨c₁, e₁, p₁⟩ := h₁ b₁
  obtain ⟨c₂, e₂, p₂⟩ := h₂ b₂
  rw [e₁, e₂]
  exact .some ⟨payload, p₁, p₂⟩

/-- A packet pool result that only the replies' bytes went into. -/
theorem agree_server {p₁ p₂ : PacketPool} (h : SparsePool.Alike p₁ p₂) {x y : Option Server}
    (e : x = y) :
    Agree Same (x.bind fun w => some (p₁, w)) (y.bind fun w => some (p₂, w)) := by
  subst e
  refine Agree.bind (Agree.same (R := Eq) (fun _ => rfl) x) ?_
  rintro w _ rfl
  exact .some ⟨h, rfl⟩

section

variable {m₁ m₂ : List Byte}

theorem handleMove_agree (h : SparsePool.Alike q₁ q₂) (h₁ : 12 ≤ m₁.length) (h₂ : 12 ≤ m₂.length)
    (he : Slice.fetch 4 8 m₁ = Slice.fetch 4 8 m₂) :
    Agree Same (handleMove queued q₁ w self m₁) (handleMove queued q₂ w self m₂) := by
  refine withPacket_agree h fun p₁ p₂ slot hp => ?_
  refine Agree.bind (Agree.same (R := Eq) (fun _ => rfl) (rd Config.kMaxSession w.sessions self)) ?_
  rintro session _ rfl
  refine Agree.bind (fill_agree hp slot (agree_of_carries
    (fun b => movePacket_carries b session.handle h₁)
    fun b => he ▸ movePacket_carries b session.handle h₂)) ?_
  rintro ⟨r₁, packet₁⟩ ⟨r₂, packet₂⟩ ⟨hr, hsame⟩
  exact agree_server hr (Server.broadcast_same queued hsame w session.handle)

theorem handleChat_agree (h : SparsePool.Alike q₁ q₂) (h₁ : headerSize m₁ ≤ m₁.length)
    (h₂ : headerSize m₂ ≤ m₂.length) (hs : headerSize m₁ = headerSize m₂)
    (hge : kHeaderSize ≤ headerSize m₁) (hfit : headerSize m₁ + 8 ≤ Config.kMaxPacketSize)
    (he : Slice.fetch kHeaderSize (headerSize m₁ - kHeaderSize) m₁ =
      Slice.fetch kHeaderSize (headerSize m₁ - kHeaderSize) m₂) :
    Agree Same (handleChat queued q₁ w self m₁) (handleChat queued q₂ w self m₂) := by
  refine withPacket_agree h fun p₁ p₂ slot hp => ?_
  refine Agree.bind (Agree.same (R := Eq) (fun _ => rfl) (rd Config.kMaxSession w.sessions self)) ?_
  rintro session _ rfl
  have c₁ := fun b => chatPacket_carries b session.handle hge h₁ hfit
  have c₂ := fun b => chatPacket_carries b session.handle (hs ▸ hge) h₂ (hs ▸ hfit)
  rw [← hs, ← he] at c₂
  refine Agree.bind (fill_agree hp slot (agree_of_carries c₁ c₂)) ?_
  rintro ⟨r₁, packet₁⟩ ⟨r₂, packet₂⟩ ⟨hr, hsame⟩
  exact agree_server hr (Server.broadcast_same queued hsame w session.handle)

theorem text_length_le {s : String} (h : s.length ≤ 1018) :
    (text s).length + 6 ≤ Config.kMaxPacketSize := by
  rw [text, List.length_map, String.length_toList]
  exact Nat.add_le_add_right h 6

theorem handleRegister_agree (h : SparsePool.Alike q₁ q₂)
    (he : credentials m₁ = credentials m₂) :
    Agree Same (handleRegister queued q₁ w self m₁) (handleRegister queued q₂ w self m₂) := by
  unfold handleRegister
  rw [he]
  refine Agree.bind (Agree.same (R := Eq) (fun _ => rfl) (credentials m₂)) ?_
  rintro ⟨userId, password⟩ _ rfl
  refine withPacket_agree h fun p₁ p₂ slot hp => ?_
  have hfit : (if (w.accounts.registerAccount userId password).1 then text "Registration successful"
      else text "ID already exists").length + 6 ≤ Config.kMaxPacketSize := by
    split_ifs <;> exact text_length_le (by decide)
  have c := resultPacket_carries .kRegister hfit (w.accounts.registerAccount userId password).1
  refine Agree.bind (fill_agree hp slot (agree_of_carries c c)) ?_
  rintro ⟨r₁, response₁⟩ ⟨r₂, response₂⟩ ⟨hr, hsame⟩
  exact agree_server hr (Server.sendPacket_same queued hsame _ self)

theorem handleLogin_agree (h : SparsePool.Alike q₁ q₂) (he : credentials m₁ = credentials m₂) :
    Agree Same (handleLogin queued q₁ w self m₁) (handleLogin queued q₂ w self m₂) := by
  unfold handleLogin
  rw [he]
  refine Agree.bind (Agree.same (R := Eq) (fun _ => rfl) (credentials m₂)) ?_
  rintro ⟨userId, password⟩ _ rfl
  refine withPacket_agree h fun p₁ p₂ slot hp => ?_
  refine Agree.bind (Agree.same (R := Eq) (fun _ => rfl) (rd Config.kMaxSession w.sessions self)) ?_
  rintro session _ rfl
  refine Agree.bind (Agree.same (R := Eq) (fun _ => rfl)
    (w.logInSession session.handle userId password)) ?_
  rintro ⟨w', success⟩ _ rfl
  have hfit : (if success then text "Login successful"
      else text "Invalid credentials").length + 6 ≤ Config.kMaxPacketSize := by
    split_ifs <;> exact text_length_le (by decide)
  have c := resultPacket_carries .kLogin hfit success
  refine Agree.bind (fill_agree hp slot (agree_of_carries c c)) ?_
  rintro ⟨r₁, response₁⟩ ⟨r₂, response₂⟩ ⟨hr, hsame⟩
  exact agree_server hr (Server.sendPacket_same queued hsame w' self)

theorem handleLogout_agree (h : SparsePool.Alike q₁ q₂) :
    Agree Same (handleLogout queued q₁ w self m₁) (handleLogout queued q₂ w self m₂) := by
  refine withPacket_agree h fun p₁ p₂ slot hp => ?_
  have c := resultPacket_carries .kLogout (text_length_le (s := "Logout successful") (by decide)) true
  refine Agree.bind (fill_agree hp slot (agree_of_carries c c)) ?_
  rintro ⟨r₁, response₁⟩ ⟨r₂, response₂⟩ ⟨hr, hsame⟩
  have hsame : SamePacket response₁ response₂ := hsame
  dsimp only
  rw [Server.sendPacket_same queued hsame]
  refine Agree.bind (Agree.same (R := Eq) (fun _ => rfl) _) ?_
  rintro w' _ rfl
  refine Agree.bind (Agree.same (R := Eq) (fun _ => rfl) _) ?_
  rintro session _ rfl
  exact agree_server hr rfl

end

/-- A packet of whole length `n` that fits, in front of anything, is handled alike. -/
theorem execute_agree {p : List Byte} (hp : kHeaderSize ≤ p.length ∧ headerSize p = p.length)
    (hfit : headerSize p + 8 ≤ Config.kMaxPacketSize)
    (hmove : headerId p = PacketId.kMove.toNat → 12 ≤ headerSize p)
    (hcred : headerId p = PacketId.kRegister.toNat ∨ headerId p = PacketId.kLogin.toNat →
      Determined p 4 ∧ Determined p 36)
    (h : SparsePool.Alike q₁ q₂) (t₁ t₂ : List Byte) :
    Agree Same (execute queued q₁ w self (p ++ t₁)) (execute queued q₂ w self (p ++ t₂)) := by
  have hk : Config.kMaxPacketSize = 1024 := rfl
  have hid : ∀ t, headerId (p ++ t) = headerId p := fun t => headerId_append t hp.1
  have hsize : ∀ t, headerSize (p ++ t) = p.length := fun t =>
    (headerSize_append t hp.1).trans hp.2
  simp only [execute, hid]
  by_cases hknown : PacketId.kCnt.toNat ≤ headerId p
  · simp only [if_pos hknown]
    exact .some ⟨h, rfl⟩
  simp only [if_neg hknown]
  -- in each run the handler is given the packet with 1024 bytes less its size behind it
  have key : ∀ handler, handlers queued (headerId p) = some handler →
      ∀ (p₁ p₂ : PacketPool) (s₁ s₂ : List Byte), SparsePool.Alike p₁ p₂ →
        (p ++ s₁).length = 1024 → (p ++ s₂).length = 1024 →
        Agree Same (handler p₁ w self (p ++ s₁)) (handler p₂ w self (p ++ s₂)) := by
    intro handler hh p₁ p₂ s₁ s₂ hq h₁ h₂
    have hc : Determined p 4 ∧ Determined p 36 →
        credentials (p ++ s₁) = credentials (p ++ s₂) := by
      rintro ⟨d₄, d₃₆⟩
      rw [credentials_eq (by omega), credentials_eq (by omega), field_append d₄, field_append d₄,
        field_append d₃₆, field_append d₃₆]
    unfold handlers at hh
    split_ifs at hh with i₁ i₂ i₃ i₄ i₅ <;> cases hh
    · have h12 := hmove i₁
      refine handleMove_agree queued w self hq (by omega) (by omega) ?_
      rw [Slice.fetch_append_left (by omega), Slice.fetch_append_left (by omega)]
    · have h4 : kHeaderSize = 4 := rfl
      have e₁ := hsize s₁
      have e₂ := hsize s₂
      refine handleChat_agree queued w self hq (by omega) (by omega) (by omega) (by omega) (by omega) ?_
      rw [e₁, Slice.fetch_append_left (by omega), Slice.fetch_append_left (by omega)]
    · exact handleRegister_agree queued w self hq (hc (hcred (.inl i₃)))
    · exact handleLogin_agree queued w self hq (hc (hcred (.inr i₄)))
    · exact handleLogout_agree queued w self hq
  cases hh : handlers queued (headerId p) with
  | none => exact .some ⟨h, rfl⟩
  | some handler =>
      refine withPacket_agree h fun p₁ p₂ slot hq => ?_
      have hcopy : ∀ b₁ b₂ : PacketBlock, Agree (fun c₁ c₂ => ∃ s₁ s₂, c₁.bytes = p ++ s₁ ∧
          c₂.bytes = p ++ s₂ ∧ (p ++ s₁).length = 1024 ∧ (p ++ s₂).length = 1024)
          (b₁.copy (p ++ t₁)) (b₂.copy (p ++ t₂)) := by
        intro b₁ b₂
        obtain ⟨c₁, s₁, e₁, r₁⟩ := b₁.copy_accepted t₁ hp (by omega)
        obtain ⟨c₂, s₂, e₂, r₂⟩ := b₂.copy_accepted t₂ hp (by omega)
        rw [e₁, e₂]
        exact .some ⟨s₁, s₂, r₁, r₂, r₁ ▸ c₁.size_eq, r₂ ▸ c₂.size_eq⟩
      have hfit : ∀ t, headerSize (p ++ t) ≤ Config.kMaxPacketSize := fun t => by
        rw [hsize]
        omega
      rw [copyPacket_of_le _ _ (hfit t₁), copyPacket_of_le _ _ (hfit t₂)]
      refine Agree.bind (fill_agree (R := fun m₁ m₂ => ∃ s₁ s₂, m₁ = p ++ s₁ ∧ m₂ = p ++ s₂ ∧
        (p ++ s₁).length = 1024 ∧ (p ++ s₂).length = 1024) hq slot hcopy) ?_
      rintro ⟨r₁, m₁⟩ ⟨r₂, m₂⟩ ⟨hr, s₁, s₂, e₁, e₂, l₁, l₂⟩
      have e₁ : m₁ = p ++ s₁ := e₁
      have e₂ : m₂ = p ++ s₂ := e₂
      subst e₁ e₂
      exact key handler hh r₁ r₂ s₁ s₂ hr l₁ l₂

end PacketHandler

end IocpServer
