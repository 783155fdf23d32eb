import IocpServer.Packet.Handler

/-!
# Packet — Effects

What a call of `Execute` that returns has done to the server: some calls of `SendPacket`, some
stores of 0 to an `accountId_`, and a change of the accounts.

* `execute_effect`: this for every packet.
* `Effect.keeps`: what each of the three keeps, `Execute` keeps.
* `execute_unhandled`: a packet without a handler changes nothing at all.
-/

namespace IocpServer

namespace Session

variable {s : Session} {ptr : Option Nat} {queued : Bool} {r : Registered}

theorem registerSend_frame (h : s.registerSend ptr queued = some r) :
    r.session = { s with sendOv := r.session.sendOv, isSending := r.session.isSending } := by
  rw [registerSend] at h
  split at h
  · cases h
    rfl
  · cases h

/-- `SendPacket` changes the sending side only. -/
theorem sendPacket_frame {header : List Byte} (h : s.sendPacket header ptr queued = some r) :
    r.session = { s with sendOv := r.session.sendOv, isSending := r.session.isSending } := by
  simp only [sendPacket] at h
  split at h
  · cases h
    rfl
  · split at h
    · cases h
    · obtain ⟨buffer, -, h⟩ := Option.bind_eq_some_iff.mp h
      split at h
      · cases h
        rfl
      · have hsend := registerSend_frame h
        rw [hsend]

end Session

namespace Server

variable {queued : Nat → Bool} {w w' : Server}

/-- `SendPacket` changes its own session. -/
theorem sendPacket_elim {slot : Nat} {header : List Byte}
    (h : w.sendPacket queued slot header = some w') :
    slot < Config.kMaxSession ∧ ∃ r, (w.sessions slot).sendPacket header
        (w.getSession (w.sessions slot).handle).join (queued slot) = some r ∧
      w' = { w with sessions := upd w.sessions slot r.session } := by
  obtain ⟨s, hs, h⟩ := Option.bind_eq_some_iff.mp h
  have hslot : slot < Config.kMaxSession := by
    by_contra hn
    rw [rd, if_neg hn] at hs
    cases hs
  rw [rd_of_lt hslot, Option.some.injEq] at hs
  subst hs
  obtain ⟨r, hr, h⟩ := Option.bind_eq_some_iff.mp h
  split at h
  · cases h
  · rw [wr_of_lt hslot] at h
    cases h
    exact ⟨hslot, r, hr, rfl⟩

theorem sendPacket_accounts {slot : Nat} {header : List Byte}
    (h : w.sendPacket queued slot header = some w') : w'.accounts = w.accounts := by
  obtain ⟨-, r, -, rfl⟩ := sendPacket_elim h
  rfl

/-- `sessionPtrs_[idx]->accountId_ = accountId` changes that session's account. -/
theorem setAccountId_elim {handle : Nat} {accountId : Int}
    (h : w.setAccountId handle accountId = some w') :
    ∃ held, w.sessionPtrs (slotIndex handle) = some held ∧
      w' = { w with
        sessions := upd w.sessions (slotIndex held) { w.sessions (slotIndex held) with accountId } } := by
  obtain ⟨entry, he, h⟩ := Option.bind_eq_some_iff.mp h
  obtain ⟨held, hheld, h⟩ := Option.bind_eq_some_iff.mp h
  obtain ⟨s, hs, h⟩ := Option.bind_eq_some_iff.mp h
  obtain ⟨sessions, hw, h⟩ := Option.bind_eq_some_iff.mp h
  cases h
  rw [rd] at he hs
  rw [wr] at hw
  split_ifs at he hs hw
  cases he
  cases hs
  cases hw
  exact ⟨held, hheld, rfl⟩

/-- What handlers do to the server, one thing after the other. -/
inductive Effect (queued : Nat → Bool) (w : Server) : Server → Prop where
  | refl : Effect queued w w
  | send {w₁ w₂ : Server} {slot : Nat} {header : List Byte} (h : Effect queued w w₁)
      (hs : w₁.sendPacket queued slot header = some w₂) : Effect queued w w₂
  | account {w₁ w₂ : Server} {handle : Nat} (h : Effect queued w w₁)
      (hs : w₁.setAccountId handle 0 = some w₂) : Effect queued w w₂
  | store {w₁ : Server} (h : Effect queued w w₁) (accounts : AccountStore) :
      Effect queued w { w₁ with accounts }

namespace Effect

/-- What each effect keeps, all of them keep. -/
theorem keeps {I : Server → Prop} (h : Effect queued w w')
    (send : ∀ {a b slot header}, I a → a.sendPacket queued slot header = some b → I b)
    (account : ∀ {a b handle}, I a → a.setAccountId handle 0 = some b → I b)
    (store : ∀ {a}, I a → ∀ accounts, I { a with accounts }) (hw : I w) : I w' := by
  induction h with
  | refl => exact hw
  | send _ hs ih => exact send ih hs
  | account _ hs ih => exact account ih hs
  | store _ accounts ih => exact store ih accounts

theorem trans {w₁ : Server} (h : Effect queued w w₁) (h' : Effect queued w₁ w') :
    Effect queued w w' := by
  induction h' with
  | refl => exact h
  | send _ hs ih => exact ih.send hs
  | account _ hs ih => exact ih.account hs
  | store _ accounts ih => exact ih.store accounts

/-- No handler changes a pointer or a handle. -/
theorem handles (h : Effect queued w w') : w'.sessionPtrs = w.sessionPtrs ∧
    ∀ slot, (w'.sessions slot).handle = (w.sessions slot).handle := by
  refine h.keeps (I := fun a => a.sessionPtrs = w.sessionPtrs ∧
    ∀ slot, (a.sessions slot).handle = (w.sessions slot).handle) ?_ ?_ ?_ ⟨rfl, fun _ => rfl⟩
  · rintro a b slot header ⟨hptrs, hhandle⟩ hs
    obtain ⟨-, r, hr, rfl⟩ := sendPacket_elim hs
    refine ⟨hptrs, fun k => ?_⟩
    by_cases hk : k = slot
    · rw [hk, ← hhandle slot]
      show (upd a.sessions slot r.session slot).handle = _
      rw [upd_same, Session.sendPacket_frame hr]
    · rw [← hhandle k]
      show (upd a.sessions slot r.session k).handle = _
      rw [upd_other hk]
  · rintro a b handle ⟨hptrs, hhandle⟩ hs
    obtain ⟨held, -, rfl⟩ := setAccountId_elim hs
    refine ⟨hptrs, fun k => ?_⟩
    rw [← hhandle k]
    by_cases hk : k = slotIndex held
    · subst hk
      simp only [upd_same]
    · simp only [upd_other hk]
  · intro a ha accounts
    exact ha

/-- No handler moves a session to another state. -/
theorem sessionPool (h : Effect queued w w') : w'.sessionPool = w.sessionPool := by
  refine h.keeps (I := fun a => a.sessionPool = w.sessionPool) ?_ ?_ ?_ rfl
  · intro a b slot header ha hs
    obtain ⟨-, r, -, rfl⟩ := sendPacket_elim hs
    exact ha
  · intro a b handle ha hs
    obtain ⟨held, -, rfl⟩ := setAccountId_elim hs
    exact ha
  · intro a ha accounts
    exact ha

end Effect

theorem sendToSession_effect {sessionHandle : Nat} {header : List Byte}
    (h : w.sendToSession queued sessionHandle header = some w') : Effect queued w w' := by
  obtain ⟨session, -, h⟩ := Option.bind_eq_some_iff.mp h
  cases session with
  | none =>
    cases h
    exact .refl
  | some handle =>
    dsimp only at h
    split at h
    · exact Effect.refl.send h
    · cases h
      exact .refl

/-- A walk over sessions. -/
theorem foldlM_effect {f : Server → Nat → Option Server}
    (hf : ∀ {w handle w'}, f w handle = some w' → Effect queued w w') :
    ∀ {handles : List Nat} {w w' : Server}, handles.foldlM f w = some w' → Effect queued w w'
  | [], w, w', h => by
      cases h
      exact .refl
  | handle :: handles, w, w', h => by
      rw [List.foldlM_cons] at h
      obtain ⟨w₁, h₁, h⟩ := Option.bind_eq_some_iff.mp h
      exact (hf h₁).trans (foldlM_effect hf h)

theorem broadcast_effect {sessionHandle : Nat} {header : List Byte}
    (h : w.broadcast queued sessionHandle header = some w') : Effect queued w w' := by
  obtain ⟨handles, -, h⟩ := Option.bind_eq_some_iff.mp h
  refine foldlM_effect (fun {w handle w'} h => ?_) h
  split at h
  · cases h
    exact .refl
  · exact sendToSession_effect h

end Server

namespace PacketHandler

open Server (Effect)

variable {queued : Nat → Bool} {q q' : PacketPool} {w w' : Server} {self : Nat} {header : List Byte}

/-- What the life of a packet comes to is what was done with it. -/
theorem withPacket_elim {β : Type} {body : PacketPool → Nat → Option (PacketPool × β)} {r : β}
    (h : PacketPool.withPacket q body = some (q', r)) :
    ∃ q₁ handle q₂, q.acquire id 1 = some (q₁, some handle) ∧
      body q₁ (slotIndex handle) = some (q₂, r) := by
  obtain ⟨⟨q₁, packet⟩, hacq, h⟩ := Option.bind_eq_some_iff.mp h
  obtain ⟨handle, hpacket, h⟩ := Option.bind_eq_some_iff.mp h
  obtain ⟨⟨q₂, r'⟩, hbody, h⟩ := Option.bind_eq_some_iff.mp h
  obtain ⟨q₃, -, h⟩ := Option.bind_eq_some_iff.mp h
  cases h
  subst hpacket
  exact ⟨q₁, handle, q₂, hacq, hbody⟩

theorem handleMove_effect (h : handleMove queued q w self header = some (q', w')) :
    Effect queued w w' := by
  obtain ⟨q₁, handle, q₂, -, h⟩ := withPacket_elim h
  obtain ⟨session, -, h⟩ := Option.bind_eq_some_iff.mp h
  obtain ⟨⟨q₃, packet⟩, -, h⟩ := Option.bind_eq_some_iff.mp h
  obtain ⟨w₁, hw, h⟩ := Option.bind_eq_some_iff.mp h
  cases h
  exact Server.broadcast_effect hw

theorem handleChat_effect (h : handleChat queued q w self header = some (q', w')) :
    Effect queued w w' := by
  obtain ⟨q₁, handle, q₂, -, h⟩ := withPacket_elim h
  obtain ⟨session, -, h⟩ := Option.bind_eq_some_iff.mp h
  obtain ⟨⟨q₃, packet⟩, -, h⟩ := Option.bind_eq_some_iff.mp h
  obtain ⟨w₁, hw, h⟩ := Option.bind_eq_some_iff.mp h
  cases h
  exact Server.broadcast_effect hw

theorem handleRegister_effect (h : handleRegister queued q w self header = some (q', w')) :
    Effect queued w w' := by
  obtain ⟨⟨userId, password⟩, -, h⟩ := Option.bind_eq_some_iff.mp h
  obtain ⟨q₁, handle, q₂, -, h⟩ := withPacket_elim h
  obtain ⟨⟨q₃, packet⟩, -, h⟩ := Option.bind_eq_some_iff.mp h
  obtain ⟨w₁, hw, h⟩ := Option.bind_eq_some_iff.mp h
  have heffect := (Effect.refl.store (w.accounts.registerAccount userId password).2).send hw
  cases h
  exact heffect

theorem handleLogin_effect (h : handleLogin queued q w self header = some (q', w')) :
    Effect queued w w' := by
  obtain ⟨⟨userId, password⟩, -, h⟩ := Option.bind_eq_some_iff.mp h
  obtain ⟨q₁, handle, q₂, -, h⟩ := withPacket_elim h
  obtain ⟨session, -, h⟩ := Option.bind_eq_some_iff.mp h
  obtain ⟨⟨w₁, success⟩, hlog, h⟩ := Option.bind_eq_some_iff.mp h
  obtain ⟨⟨q₃, packet⟩, -, h⟩ := Option.bind_eq_some_iff.mp h
  obtain ⟨w₂, hw, h⟩ := Option.bind_eq_some_iff.mp h
  obtain ⟨w₃, hset, hlog⟩ := Option.bind_eq_some_iff.mp hlog
  cases h
  cases hlog
  exact (Effect.refl.account hset).send hw

theorem handleLogout_effect (h : handleLogout queued q w self header = some (q', w')) :
    Effect queued w w' := by
  obtain ⟨q₁, handle, q₂, -, h⟩ := withPacket_elim h
  obtain ⟨⟨q₃, packet⟩, -, h⟩ := Option.bind_eq_some_iff.mp h
  obtain ⟨w₁, hw, h⟩ := Option.bind_eq_some_iff.mp h
  obtain ⟨session, -, h⟩ := Option.bind_eq_some_iff.mp h
  obtain ⟨w₂, hset, h⟩ := Option.bind_eq_some_iff.mp h
  cases h
  exact (Effect.refl.send hw).account hset

/-- `Execute` finds a handler. -/
def HasHandler (header : List Byte) : Prop :=
  headerId header < PacketId.kCnt.toNat ∧ (handlers (fun _ => true) (headerId header)).isSome

instance : DecidablePred HasHandler := fun _ => inferInstanceAs (Decidable (_ ∧ _))

theorem handlers_isSome (queued queued' : Nat → Bool) (id : Nat) :
    (handlers queued id).isSome = (handlers queued' id).isSome := by
  unfold handlers
  split_ifs <;> simp only [Option.isSome_some, Option.isSome_none]

/-- **A packet without a handler** is dropped. -/
theorem execute_unhandled (h : ¬ HasHandler header) : execute queued q w self header = some (q, w) := by
  by_cases hid : PacketId.kCnt.toNat ≤ headerId header
  · rw [execute, if_pos hid]
  · have hnone : handlers queued (headerId header) = none := by
      by_contra hne
      refine h ⟨not_le.mp hid, ?_⟩
      rw [handlers_isSome _ queued]
      exact Option.isSome_iff_ne_none.mpr hne
    rw [execute, if_neg hid, hnone]

/-- The bytes of the block that `Execute` copies a packet to, behind which lies what was left in
it. -/
def received (q : PacketPool) (header : List Byte) : Option (List Byte) := do
  let (q, packet) ← q.acquire id 1
  let handle ← packet
  let (_, bytes) ← PacketPool.copyPacket q (slotIndex handle) header
  return bytes

/-- What `Execute` hands the handler it finds. -/
theorem execute_elim
    {handler : PacketPool → Server → Nat → List Byte → Option (PacketPool × Server)}
    (hid : headerId header < PacketId.kCnt.toNat)
    (hh : handlers queued (headerId header) = some handler)
    (h : execute queued q w self header = some (q', w')) :
    ∃ q₁ q₂ memory, received q header = some memory ∧ handler q₁ w self memory = some (q₂, w') := by
  rw [execute, if_neg hid.not_ge, hh] at h
  obtain ⟨q₁, handle, q₂, hacq, h⟩ := withPacket_elim h
  obtain ⟨⟨q₃, memory⟩, hcopy, h⟩ := Option.bind_eq_some_iff.mp h
  refine ⟨q₃, q₂, memory, ?_, h⟩
  simp only [received, hacq, hcopy, Option.bind_eq_bind, Option.bind_some]
  rfl

/-- **`Execute` is effects.** -/
theorem execute_effect (h : execute queued q w self header = some (q', w')) : Effect queued w w' := by
  by_cases hid : PacketId.kCnt.toNat ≤ headerId header
  · rw [execute, if_pos hid] at h
    cases h
    exact .refl
  · cases hh : handlers queued (headerId header) with
    | none =>
      rw [execute, if_neg hid, hh] at h
      cases h
      exact .refl
    | some handler =>
      obtain ⟨q₁, q₂, memory, -, h⟩ := execute_elim (not_le.mp hid) hh h
      unfold handlers at hh
      split_ifs at hh <;> cases hh
      · exact handleMove_effect h
      · exact handleChat_effect h
      · exact handleRegister_effect h
      · exact handleLogin_effect h
      · exact handleLogout_effect h

end PacketHandler

end IocpServer
