import IocpServer.Session.Send

/-!
# Session — Failure

The sending side of a session when `WSASend` may fail at once.

* `call_queued`, `call_failed`: a call whose `WSASend` is queued, or that makes none, is a call of
  `Session — Send`; one whose `WSASend` fails leaves `isSending_` set with nothing outstanding.
* `honest_iff`: as long as every `WSASend` is queued, and no longer, `isSending_` stands for an
  outstanding operation and a packet turned away leaves the session as it was.
-/

namespace IocpServer

/-- A call of `SendPacket` or `OnSend`, and whether the `WSASend` it may make is queued. -/
inductive SendCall where
  | send (header : List Byte) (ptr : Option Nat) (queued : Bool)
  | complete (bytesTransferred : Nat) (ptr : Option Nat) (queued : Bool)

namespace SendCall

/-- The call, if the operation is queued. -/
def event : SendCall → SendEvent
  | .send header ptr _ => .send header ptr
  | .complete n ptr _ => .complete n ptr

def queued : SendCall → Bool
  | .send _ _ queued | .complete _ _ queued => queued

end SendCall

namespace Sender

/-- After a call that came to `r`.  An operation that failed is not outstanding. -/
def afterCall (r : Registered) (queued : Bool) (accepted : List (List Byte)) (completed : List Byte)
    (outstanding : List Flight) : Option (Sender × Bool) :=
  match r.io with
  | none => some (⟨r.session, accepted, completed, outstanding⟩, r.ok)
  | some w =>
    if queued then do
      let bytes ← r.session.sendOv.buffer.read w.buf w.len
      return (⟨r.session, accepted, completed, outstanding ++ [⟨w, bytes⟩]⟩, r.ok)
    else some (⟨r.session, accepted, completed, outstanding⟩, r.ok)

/-- One call, and what it returns. -/
def call (st : Sender) : SendCall → Option (Sender × Bool)
  | .send header ptr queued => do
    let r ← st.session.sendPacket header ptr queued
    let accepted :=
      if r.ok then st.accepted ++ [header.take (headerSize header)] else st.accepted
    afterCall r queued accepted st.completed st.outstanding
  | .complete bytesTransferred ptr queued =>
    match st.outstanding with
    | [] => none
    | f :: rest => do
      let bytes ← st.session.sendOv.buffer.read f.wsaBuf.buf bytesTransferred
      let r ← st.session.onSend bytesTransferred ptr queued
      afterCall r queued st.accepted (st.completed ++ bytes) rest

/-- The server goes on from there. -/
def next (st : Sender) (c : SendCall) : Option Sender := (st.call c).map Prod.fst

/-- The call makes a `WSASend`: it queues a packet that fits while nothing is being sent, or it
takes note of a part of what is being sent. -/
def Posts (st : Sender) : SendCall → Prop
  | .send header _ _ => st.session.isSending = false ∧
      st.session.sendOv.window.length + headerSize header ≤ st.session.sendOv.buffer.size
  | .complete n _ _ => n < st.session.sendOv.window.length

/-- `isSending_` stands for an outstanding operation, which every byte queued waits for; and a
packet turned away has left the session and the bytes queued as they were. -/
structure Honest (st : Sender) (c : SendCall) (st' : Sender) (ok : Bool) : Prop where
  sending : st'.session.isSending = true → st'.outstanding ≠ []
  queued : st'.session.sendOv.window ≠ [] → st'.outstanding ≠ []
  rejected : ∀ header ptr q, c = .send header ptr q → ok = false →
    st'.session.sendOv.sendPos = st.session.sendOv.sendPos ∧
    st'.session.sendOv.recvPos = st.session.sendOv.recvPos ∧
    st'.session.isSending = st.session.isSending ∧
    st'.session.sendOv.window = st.session.sendOv.window

end Sender

namespace Session

/-- `RegisterSend` when `WSASend` fails. -/
theorem registerSend_fails {s : Session} (hs : s.isSending = true) (ptr : Option Nat) :
    ∃ r w, s.registerSend ptr false = some r ∧ r.session.isSending = true ∧ r.io = some w ∧
      r.ok = false := by
  simp only [registerSend, hs, if_true]
  exact ⟨_, _, rfl, rfl, rfl, rfl⟩

end Session

namespace Sender

variable {st : Sender} {c : SendCall}

/-- **A call whose `WSASend` fails** sets `isSending_` with nothing outstanding. -/
theorem call_failed (h : st.Inv) (hc : st.Legit c.event) (hp : st.Posts c) (hq : c.queued = false) :
    ∃ st' ok, st.call c = some (st', ok) ∧ st'.session.isSending = true ∧ st'.outstanding = [] := by
  cases c with
  | send header ptr queued =>
    obtain rfl : queued = false := hq
    obtain ⟨hidle, hroom⟩ := hp
    have hmem : headerSize header ≤ header.length := hc
    have hsum : u64 (st.session.sendOv.available + headerSize header) =
        st.session.sendOv.window.length + headerSize header := by
      have hn : st.session.sendOv.buffer.size = 65536 := h.settled.size
      rw [h.settled.spans.available]
      exact u64_of_lt (by omega)
    have hlen : (header.take (headerSize header)).length = headerSize header :=
      List.length_take_of_le hmem
    obtain ⟨buffer, hwrite, -⟩ := h.settled.extend (hlen.symm ▸ hroom)
    generalize hov : ({ st.session.sendOv with
      buffer, sendPos := u64 (st.session.sendOv.sendPos + headerSize header) } : OverlappedEx) = ov
    obtain ⟨r, w, hr, hs, hio, hok⟩ := Session.registerSend_fails
      (s := { st.session with sendOv := ov, isSending := true }) rfl ptr
    have e : st.session.sendPacket header ptr false = some r := by
      simp only [Session.sendPacket, hsum, if_neg hroom.not_gt, if_neg hmem.not_gt, hwrite, hidle,
        Option.bind_eq_bind, Option.bind_some, Bool.false_eq_true, if_false, hov]
      exact hr
    refine ⟨⟨r.session, st.accepted, st.completed, st.outstanding⟩, false, ?_, hs, (h.idle hidle).1⟩
    simp only [call, e, hok, afterCall, hio, Option.bind_eq_bind, Option.bind_some,
      Bool.false_eq_true, if_false]
  | complete n ptr queued =>
    obtain rfl : queued = false := hq
    obtain ⟨f, hf, hpos, hle⟩ := hc
    have hs : st.session.isSending = true := by
      cases hb : st.session.isSending with
      | true => rfl
      | false =>
        rw [(h.idle hb).1] at hf
        cases hf
    obtain ⟨g, hg, hbuf, hlen, -⟩ := h.busy hs
    obtain rfl : g = f := by
      rw [hg] at hf
      exact Option.some.inj hf
    have hread := h.settled.spans.read (hle.trans hlen)
    obtain ⟨hspans, hdrop⟩ := h.settled.spans.advance (hle.trans hlen)
    obtain ⟨-, hwin⟩ := hspans.wrap
    rw [hdrop] at hwin
    generalize hov : ({ st.session.sendOv with
      recvPos := u64 (st.session.sendOv.recvPos + n) } : OverlappedEx).wrap = ov at hwin
    have hpart : n < st.session.sendOv.window.length := hp
    have hne : ov.recvPos ≠ ov.sendPos := by
      intro e
      have hnil : ov.window = [] := by
        rw [OverlappedEx.window, e, Nat.sub_self, Mirror.peek_zero]
      have := congrArg List.length (hwin.symm.trans hnil)
      rw [List.length_drop, List.length_nil] at this
      omega
    obtain ⟨r, w, hr, hsend, hio, hok⟩ :=
      Session.registerSend_fails (s := { st.session with sendOv := ov, isSending := true }) rfl ptr
    have e : st.session.onSend n ptr false = some r := by
      simp only [Session.onSend, hs, if_true, hov, if_neg hne]
      exact hr
    refine ⟨⟨r.session, st.accepted, st.completed ++ st.session.sendOv.window.take n, []⟩, false,
      ?_, hsend, rfl⟩
    simp only [call, hg, hbuf, hread, e, hok, afterCall, hio, Option.bind_eq_bind, Option.bind_some,
      Bool.false_eq_true, if_false]

/-- The outcome of `WSASend` decides nothing in a call that makes none. -/
theorem afterCall_eq {r : Registered} {queued : Bool} (h : r.io = none ∨ queued = true)
    (accepted : List (List Byte)) (completed : List Byte) (outstanding : List Flight) :
    afterCall r queued accepted completed outstanding =
      (after r accepted completed outstanding).map fun st => (st, r.ok) := by
  rcases h with h | rfl
  · simp only [afterCall, after, h, Option.map_some]
  · cases hio : r.io with
    | none => simp only [afterCall, after, hio, Option.map_some]
    | some w =>
      simp only [afterCall, after, hio, if_true, Option.bind_eq_bind]
      cases r.session.sendOv.buffer.read w.buf w.len <;> rfl

/-- `SendPacket`, when it makes no `WSASend` or that is queued. -/
theorem sendPacket_eq (h : st.Inv) {header : List Byte} (hmem : headerSize header ≤ header.length)
    {ptr : Option Nat} {queued : Bool} (hp : st.Posts (.send header ptr queued) → queued = true) :
    ∃ r, st.session.sendPacket header ptr queued = some r ∧
      st.session.sendPacket header ptr true = some r ∧ (r.io = none ∨ queued = true) ∧
      (r.ok = false → r = ⟨st.session, false, none⟩) := by
  have hsum : u64 (st.session.sendOv.available + headerSize header) =
      st.session.sendOv.window.length + headerSize header := by
    have hn : st.session.sendOv.buffer.size = 65536 := h.settled.size
    have hfits := h.settled.fits
    have hsz := headerSize_lt header
    rw [h.settled.spans.available, OverlappedEx.window_length]
    exact u64_of_lt (by omega)
  by_cases hroom : st.session.sendOv.window.length + headerSize header ≤
      st.session.sendOv.buffer.size
  · obtain ⟨r, hr, hok, -, -, -, -, hio⟩ := Session.sendPacket_accept h.settled hroom hmem ptr true
    rw [Bool.or_true] at hok
    refine ⟨r, ?_, hr, ?_, fun hne => absurd (hok.symm.trans hne) Bool.noConfusion⟩
    · cases hq : queued with
      | true => exact hr
      | false =>
        have hs : st.session.isSending = true := by
          by_contra hs
          exact Bool.noConfusion (hq.symm.trans (hp ⟨by simpa using hs, hroom⟩))
        rw [← hr]
        have hlen : (header.take (headerSize header)).length = headerSize header :=
          List.length_take_of_le hmem
        obtain ⟨buffer, hwrite, -⟩ := h.settled.extend (hlen.symm ▸ hroom)
        simp only [Session.sendPacket, hsum, if_neg hroom.not_gt, if_neg hmem.not_gt, hwrite, hs,
          if_true, Option.bind_eq_bind, Option.bind_some]
    · cases hs : st.session.isSending with
      | true =>
        rw [hs, if_pos rfl] at hio
        exact .inl hio
      | false => exact .inr (hp ⟨hs, hroom⟩)
  · have hreject : ∀ q, st.session.sendPacket header ptr q = some ⟨st.session, false, none⟩ := by
      intro q
      simp only [Session.sendPacket, hsum, if_pos (not_le.mp hroom)]
    exact ⟨_, hreject queued, hreject true, .inl rfl, fun _ => rfl⟩

/-- `OnSend`, when it makes no `WSASend` or that is queued. -/
theorem onSend_eq (h : st.Inv) (hs : st.session.isSending = true) {n : Nat} {ptr : Option Nat}
    {queued : Bool} (hn : n ≤ st.session.sendOv.window.length)
    (hp : n < st.session.sendOv.window.length → queued = true) :
    ∃ r, st.session.onSend n ptr queued = some r ∧ st.session.onSend n ptr true = some r ∧
      (r.io = none ∨ queued = true) := by
  obtain ⟨hspans, hdrop⟩ := h.settled.spans.advance hn
  obtain ⟨hset, hwin⟩ := hspans.wrap
  rw [hdrop] at hwin
  generalize hov : ({ st.session.sendOv with
    recvPos := u64 (st.session.sendOv.recvPos + n) } : OverlappedEx).wrap = ov at hset hwin
  by_cases hq : queued = true
  · subst hq
    obtain ⟨r, hr, -⟩ := Session.onSend_spec h.settled hs hn ptr true
    exact ⟨r, hr, hr, .inr rfl⟩
  · have he : ov.recvPos = ov.sendPos := by
      have hall : st.session.sendOv.window.length ≤ n := not_lt.mp (mt hp hq)
      have hlen : ov.window.length = 0 := by
        rw [hwin, List.length_drop]
        omega
      rw [OverlappedEx.window_length] at hlen
      have := hset.le
      omega
    have e : ∀ q, st.session.onSend n ptr q =
        some ⟨{ st.session with sendOv := ov, isSending := false }, true, none⟩ := by
      intro q
      simp only [Session.onSend, hs, if_true, hov, if_pos he]
    exact ⟨_, e queued, e true, .inl rfl⟩

/-- **A call that makes no `WSASend`, or whose `WSASend` is queued.** -/
theorem call_queued (h : st.Inv) (hc : st.Legit c.event) (hp : st.Posts c → c.queued = true) :
    ∃ st' ok, st.call c = some (st', ok) ∧ step st c.event = some st' ∧
      (∀ header ptr q, c = .send header ptr q → ok = false → st' = st) := by
  obtain ⟨st', hst', -⟩ := step_inv h hc
  cases c with
  | send header ptr queued =>
    obtain ⟨r, hr, hr', hio, hrej⟩ := sendPacket_eq h hc hp
    refine ⟨st', r.ok, ?_, hst', fun _ _ _ _ hok => ?_⟩
    · simp only [SendCall.event, step, hr', Option.bind_eq_bind, Option.bind_some] at hst'
      simp only [call, hr, Option.bind_eq_bind, Option.bind_some, afterCall_eq hio]
      rw [hst', Option.map_some]
    · simp only [SendCall.event, step, hr', hrej hok, after, Option.bind_eq_bind, Option.bind_some,
        Bool.false_eq_true, if_false, Option.some.injEq] at hst'
      exact hst'.symm
  | complete n ptr queued =>
    obtain ⟨f, hf, hpos, hle⟩ := hc
    have hs : st.session.isSending = true := by
      by_contra hs
      rw [(h.idle (by simpa using hs)).1] at hf
      cases hf
    obtain ⟨g, hg, hbuf, hlen, -⟩ := h.busy hs
    obtain rfl : g = f := by
      rw [hg] at hf
      exact Option.some.inj hf
    have hread := h.settled.spans.read (hle.trans hlen)
    have hq : n < st.session.sendOv.window.length → queued = true := hp
    obtain ⟨r, hr, hr', hio⟩ : ∃ r, st.session.onSend n ptr queued = some r ∧
        st.session.onSend n ptr true = some r ∧ (r.io = none ∨ queued = true) :=
      onSend_eq h hs (hle.trans hlen) hq
    refine ⟨st', r.ok, ?_, hst', fun _ _ _ e => by cases e⟩
    simp only [SendCall.event, step, hg, hbuf, hread, hr', Option.bind_eq_bind, Option.bind_some]
      at hst'
    simp only [call, hg, hbuf, hread, hr, Option.bind_eq_bind, Option.bind_some, afterCall_eq hio]
    rw [hst', Option.map_some]

/-- A packet lies in its memory, a completion reports bytes that were posted, and every `WSASend`
made is queued. -/
def Taken (st : Sender) (c : SendCall) : Prop :=
  st.Legit c.event ∧ (st.Posts c → c.queued = true)

theorem run_taken {s : Session} (hs : s.sendOv.Empty) (hidle : s.isSending = false)
    {cs : List SendCall} (r : Runs next Taken (start s) cs st) : st.Inv := by
  refine r.invariant (start_inv hs hidle) fun a c b ha ⟨hc, hp⟩ hb => ?_
  obtain ⟨b', ok, hcall, hstep, -⟩ := call_queued ha hc hp
  obtain ⟨b'', hstep', hinv⟩ := step_inv ha hc
  obtain rfl : b' = b'' := Option.some.inj (hstep.symm.trans hstep')
  rw [next, hcall, Option.map_some, Option.some.injEq] at hb
  exact hb ▸ hinv

/-- **The send path is honest as long as `WSASend` does not fail.**  After every run of calls whose
operations were queued, the next call returns; and it is honest if and only if the operation it
makes, if it makes one, is queued too. -/
theorem honest_iff {s : Session} (hs : s.sendOv.Empty) (hidle : s.isSending = false)
    {cs : List SendCall} (r : Runs next Taken (start s) cs st) (hc : st.Legit c.event) :
    ∃ st' ok, st.call c = some (st', ok) ∧
      (st.Honest c st' ok ↔ (st.Posts c → c.queued = true)) := by
  have h := run_taken hs hidle r
  by_cases hp : st.Posts c → c.queued = true
  · obtain ⟨st', ok, hcall, hstep, hrej⟩ := call_queued h hc hp
    obtain ⟨st'', hstep', hinv⟩ := step_inv h hc
    obtain rfl : st' = st'' := Option.some.inj (hstep.symm.trans hstep')
    refine ⟨st', ok, hcall, iff_of_true ⟨fun hsend => ?_, fun hwin => ?_, ?_⟩ hp⟩
    · obtain ⟨f, hf, -⟩ := hinv.busy hsend
      simp [hf]
    · have hsend : st'.session.isSending = true := by
        by_contra hsend
        exact hwin (hinv.idle (by simpa using hsend)).2
      obtain ⟨f, hf, -⟩ := hinv.busy hsend
      simp [hf]
    · intro header ptr q e hok
      obtain rfl := hrej header ptr q e hok
      exact ⟨rfl, rfl, rfl, rfl⟩
  · have hposts : st.Posts c := by
      by_contra hn
      exact hp fun e => absurd e hn
    have hq : c.queued = false := by
      by_contra hq
      exact hp fun _ => by simpa using hq
    obtain ⟨st', ok, hcall, hsend, hnone⟩ := call_failed h hc hposts hq
    exact ⟨st', ok, hcall, iff_of_false (fun hh => hh.sending hsend hnone) hp⟩

/-- A packet whose `WSASend` is queued, on a fresh session. -/
theorem honest_iff_queued : ∃ st' ok,
    (start Session.fresh).call (.send [5, 0, 2, 0, 65] none true) = some (st', ok) ∧
      (start Session.fresh).Honest (.send [5, 0, 2, 0, 65] none true) st' ok := by
  have run : Runs next Taken (start Session.fresh) [] (start Session.fresh) := .refl
  have legit : Legit (start Session.fresh) (SendCall.send [5, 0, 2, 0, 65] none true).event :=
    (by decide : headerSize [5, 0, 2, 0, 65] ≤ 5)
  obtain ⟨st', ok, hcall, hiff⟩ :=
    honest_iff (c := .send [5, 0, 2, 0, 65] none true) ⟨rfl, rfl, rfl⟩ rfl run legit
  exact ⟨st', ok, hcall, hiff.mpr fun _ => rfl⟩

/-- The same packet when its `WSASend` fails: `SendPacket` returns `false`, and the next packet is
accepted with nothing to transmit it. -/
theorem honest_fails : ∃ st₁ st₂,
    (start Session.fresh).call (.send [5, 0, 2, 0, 65] none false) = some (st₁, false) ∧
      ¬ (start Session.fresh).Honest (.send [5, 0, 2, 0, 65] none false) st₁ false ∧
      st₁.call (.send [5, 0, 2, 0, 66] none true) = some (st₂, true) ∧ st₂.outstanding = [] := by
  have first : ((start Session.fresh).call (.send [5, 0, 2, 0, 65] none false)).map
      (fun r => (r.1.session.isSending, r.1.outstanding, r.2)) = some (true, [], false) := by
    decide +kernel
  obtain ⟨⟨st₁, ok₁⟩, e₁, out₁⟩ := Option.map_eq_some_iff.mp first
  obtain ⟨hsend, hout⟩ := Prod.mk.inj out₁
  obtain ⟨hnone, rfl⟩ := Prod.mk.inj hout
  have second : (((start Session.fresh).call (.send [5, 0, 2, 0, 65] none false)).bind
      fun r => r.1.call (.send [5, 0, 2, 0, 66] none true)).map
        (fun r => (r.1.outstanding, r.2)) = some ([], true) := by decide +kernel
  rw [e₁, Option.bind_some] at second
  obtain ⟨⟨st₂, ok₂⟩, e₂, out₂⟩ := Option.map_eq_some_iff.mp second
  obtain ⟨hnone', rfl⟩ := Prod.mk.inj out₂
  exact ⟨st₁, st₂, e₁, fun hh => hh.sending hsend hnone, e₂, hnone'⟩

end Sender

end IocpServer
