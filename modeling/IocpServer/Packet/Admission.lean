import IocpServer.Packet.Block
import IocpServer.Session.Receive

/-!
# Packet — Admission

What becomes of a packet `OnRecv` has handed over: `AcquirePacket` copies it into a block,
`Execute` copies it into another, and `HandleChat` copies its text into a third, behind a longer
header.  `OnRecv` checks the size against the ring buffer, which is longer than a block.

* `admitted_fits_iff`: the three copies stay in their blocks exactly for packets up to a block's
  length, less 8 bytes for a chat.
-/

namespace IocpServer

/-- The copies made of `frame` into the blocks `b₁`, `b₂` and, for a chat, `b₃` stay inside them,
and the size of the chat's reply does not wrap. -/
def Fits (frame : List Byte) (b₁ b₂ b₃ : PacketBlock) (sessionHandle : Nat) : Prop :=
  ∃ c₁ c₂, b₁.copy frame = some c₁ ∧ b₂.copy c₁.bytes = some c₂ ∧
    (headerId frame = PacketId.kChat.toNat → ∃ c₃, chatPacket b₃ sessionHandle c₂.bytes = some c₃ ∧
      headerSize c₃.bytes = headerSize frame + 8)

variable {frame : List Byte}

theorem fits_iff (hf : kHeaderSize ≤ frame.length ∧ headerSize frame = frame.length)
    (b₁ b₂ b₃ : PacketBlock) (sessionHandle : Nat) :
    Fits frame b₁ b₂ b₃ sessionHandle ↔ headerSize frame ≤ Config.kMaxPacketSize ∧
      (headerId frame = PacketId.kChat.toNat → headerSize frame + 8 ≤ Config.kMaxPacketSize) := by
  by_cases hsize : headerSize frame ≤ Config.kMaxPacketSize
  · obtain ⟨c₁, t₁, hc₁, hb₁⟩ := b₁.copy_accepted [] hf hsize
    obtain ⟨c₂, t₂, hc₂, hb₂⟩ := b₂.copy_accepted t₁ hf hsize
    rw [List.append_nil] at hc₁
    rw [← hb₁] at hc₂
    have hheader : headerSize c₂.bytes = headerSize frame := by
      rw [hb₂]
      exact headerSize_append t₂ hf.1
    have hlen : headerSize c₂.bytes ≤ c₂.bytes.length := by
      rw [hheader, c₂.size_eq]
      exact hsize
    have hge : kHeaderSize ≤ headerSize c₂.bytes := by
      rw [hheader, hf.2]
      exact hf.1
    have hreply : (∃ c₃, chatPacket b₃ sessionHandle c₂.bytes = some c₃ ∧
        headerSize c₃.bytes = headerSize frame + 8) ↔
          headerSize frame + 8 ≤ Config.kMaxPacketSize := by
      by_cases hroom : headerSize c₂.bytes + 8 ≤ Config.kMaxPacketSize
      · obtain ⟨c₃, hc₃, hcarries⟩ := chatPacket_carries b₃ sessionHandle hge hlen hroom
        refine iff_of_true ⟨c₃, hc₃, hcarries.1.trans ?_⟩ (hheader ▸ hroom)
        have h4 : kHeaderSize = 4 := rfl
        simp only [chatBytes, List.length_append, leBytes_length]
        rw [Slice.fetch_length (by omega), hheader]
        omega
      · have hfault := chatPacket_fault b₃ sessionHandle hge hlen (not_le.mp hroom)
        refine iff_of_false ?_ (hheader ▸ hroom)
        rintro ⟨c₃, hc₃, -⟩
        exact absurd (hfault.symm.trans hc₃) (by simp)
    constructor
    · rintro ⟨d₁, d₂, hd₁, hd₂, hchat⟩
      obtain rfl : c₁ = d₁ := Option.some.inj (hc₁.symm.trans hd₁)
      obtain rfl : c₂ = d₂ := Option.some.inj (hc₂.symm.trans hd₂)
      exact ⟨hsize, fun hid => hreply.mp (hchat hid)⟩
    · rintro ⟨-, hchat⟩
      exact ⟨c₁, c₂, hc₁, hc₂, fun hid => hreply.mpr (hchat hid)⟩
  · have hfault := b₁.copy_fault (not_le.mp hsize)
    refine iff_of_false ?_ fun h => hsize h.1
    rintro ⟨c₁, c₂, hc₁, -⟩
    exact absurd (hfault.symm.trans hc₁) (by simp)

/-- **Which admitted packets fit.**  The copies made of a packet that `OnRecv` has handed over stay
inside their blocks if and only if it is no longer than a block, and 8 bytes shorter if it is a
chat. -/
theorem admitted_fits_iff {s : Session} {ptr : Option Nat} {fuel : Nat} {es : List Completion}
    {st : Receiver} (hs : s.recvOv.Empty) (hf : Config.kBufferSize < fuel)
    (r : Runs (Receiver.complete fuel) Receiver.Legit (Receiver.connect s ptr) es st)
    (h : frame ∈ st.handed) (b₁ b₂ b₃ : PacketBlock) (sessionHandle : Nat) :
    Fits frame b₁ b₂ b₃ sessionHandle ↔ headerSize frame ≤ Config.kMaxPacketSize ∧
      (headerId frame = PacketId.kChat.toNat → headerSize frame + 8 ≤ Config.kMaxPacketSize) :=
  fits_iff (Receiver.handed_accepted hs hf r h) b₁ b₂ b₃ sessionHandle

/-- A client may send a five-byte chat, and it fits. -/
theorem admitted_fits_short : ∃ es st,
    Runs (Receiver.complete 65537) Receiver.Legit (Receiver.connect Session.fresh none) es st ∧
      Fits [5, 0, 2, 0, 65] (.filled 0) (.filled 0) (.filled 0) 0 := by
  obtain ⟨es, st, run, h⟩ : ∃ es st,
      Runs (Receiver.complete 65537) Receiver.Legit (Receiver.connect Session.fresh none) es st ∧
        [5, 0, 2, 0, 65] ∈ st.handed :=
    Receiver.accepted_handed ⟨rfl, rfl, rfl⟩ (by decide) ⟨by decide, by decide⟩
  exact ⟨es, st, run, (admitted_fits_iff ⟨rfl, rfl, rfl⟩ (by decide) run h _ _ _ _).mpr (by decide)⟩

/-- A chat of 1025 bytes. -/
def overlong : List Byte := leBytes 2 1025 ++ (leBytes 2 2 ++ List.replicate 1021 65)

/-- It is handed over as well, and its first copy already ends behind its block. -/
theorem admitted_overlong : ∃ es st,
    Runs (Receiver.complete 65537) Receiver.Legit (Receiver.connect Session.fresh none) es st ∧
      overlong ∈ st.handed ∧
      ∀ b₁ b₂ b₃ sessionHandle, ¬ Fits overlong b₁ b₂ b₃ sessionHandle := by
  have hsize : headerSize overlong = 1025 := headerSize_leBytes (by decide) _
  have hlen : overlong.length = 1025 := by
    simp only [overlong, List.length_append, leBytes_length, List.length_replicate]
  have hf : kHeaderSize ≤ overlong.length ∧ headerSize overlong = overlong.length := by
    rw [hsize, hlen]
    decide
  obtain ⟨es, st, run, h⟩ : ∃ es st,
      Runs (Receiver.complete 65537) Receiver.Legit (Receiver.connect Session.fresh none) es st ∧
        overlong ∈ st.handed := Receiver.accepted_handed ⟨rfl, rfl, rfl⟩ (by decide) hf
  refine ⟨es, st, run, h, fun b₁ b₂ b₃ sessionHandle hfits => ?_⟩
  have hle := ((fits_iff hf b₁ b₂ b₃ sessionHandle).mp hfits).1
  rw [hsize] at hle
  exact absurd hle (by decide)

end IocpServer
