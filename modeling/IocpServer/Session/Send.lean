import IocpServer.Session.Window
import IocpServer.Support.Runs

/-!
# Session — Send

The sending side of one session over whole runs: calls of `SendPacket`, each under `sendCs_`, and
send completions in any order.  Winsock reads the bytes of a `WSASend` out of the ring when it
completes, so the bytes of the outstanding one have to stay as they were when it was posted.

* `sendPacket_reject`, `sendPacket_accept`, `onSend_spec`: one call each.
* `send_stream`: in every state of every run the bytes completed and the window are the accepted
  packets one after the other, and the outstanding `WSASend`, if there is one, finds its bytes.
-/

namespace IocpServer

namespace Session

variable {s : Session} {header : List Byte}

/-- `RegisterSend` posts the whole window, whatever becomes of its `WSASend`. -/
theorem registerSend_posts (h : s.sendOv.Settled) (hs : s.isSending = true) (ptr : Option Nat)
    (queued : Bool) : s.registerSend ptr queued =
      some ⟨{ s with sendOv := { s.sendOv with
        ioType := .kSend, wsaBuf := ⟨s.sendOv.recvPos, s.sendOv.window.length⟩,
        sessionPtr := if queued then ptr else none } },
        queued, some ⟨s.sendOv.recvPos, s.sendOv.window.length⟩⟩ := by
  have hn : s.sendOv.buffer.size = 65536 := h.size
  have hfits := h.fits
  have hlen : u32 s.sendOv.available = s.sendOv.window.length := by
    rw [h.spans.available, OverlappedEx.window_length]
    exact u32_of_lt (by omega)
  simp only [registerSend, hs, if_true, hlen]

/-- `SendPacket` turns a packet away that the ring has no room for. -/
theorem sendPacket_reject (h : s.sendOv.Settled)
    (hfull : s.sendOv.buffer.size < s.sendOv.window.length + headerSize header)
    (ptr : Option Nat) (queued : Bool) : s.sendPacket header ptr queued = some ⟨s, false, none⟩ := by
  have hn : s.sendOv.buffer.size = 65536 := h.size
  have hfits := h.fits
  have hsz := headerSize_lt header
  have hsum : u64 (s.sendOv.available + headerSize header) =
      s.sendOv.window.length + headerSize header := by
    rw [h.spans.available, OverlappedEx.window_length]
    exact u64_of_lt (by omega)
  simp only [sendPacket, hsum, if_pos hfull]

/-- `SendPacket` appends a packet that fits, and posts the whole window if nothing is being sent. -/
theorem sendPacket_accept (h : s.sendOv.Settled)
    (hroom : s.sendOv.window.length + headerSize header ≤ s.sendOv.buffer.size)
    (hmem : headerSize header ≤ header.length) (ptr : Option Nat) (queued : Bool) :
    ∃ r, s.sendPacket header ptr queued = some r ∧ r.ok = (s.isSending || queued) ∧
      r.session.isSending = true ∧
      r.session.sendOv.Settled ∧ r.session.sendOv.recvPos = s.sendOv.recvPos ∧
      r.session.sendOv.window = s.sendOv.window ++ header.take (headerSize header) ∧
      r.io = if s.isSending then none
        else some ⟨r.session.sendOv.recvPos, r.session.sendOv.window.length⟩ := by
  have hn : s.sendOv.buffer.size = 65536 := h.size
  have hsum : u64 (s.sendOv.available + headerSize header) =
      s.sendOv.window.length + headerSize header := by
    rw [h.spans.available]
    exact u64_of_lt (by omega)
  have hlen : (header.take (headerSize header)).length = headerSize header :=
    List.length_take_of_le hmem
  obtain ⟨buffer, hwrite, hset, hwin⟩ := h.extend (hlen.symm ▸ hroom)
  rw [hlen] at hset hwin
  generalize hov : ({ s.sendOv with buffer, sendPos := u64 (s.sendOv.sendPos + headerSize header) } :
    OverlappedEx) = ov at hset hwin
  have hpos : ov.recvPos = s.sendOv.recvPos := by rw [← hov]
  cases hs : s.isSending with
  | true =>
      have e : s.sendPacket header ptr queued = some ⟨{ s with sendOv := ov }, true, none⟩ := by
        simp only [sendPacket, hsum, if_neg hroom.not_gt, if_neg hmem.not_gt, hwrite, hs, if_true,
          Option.bind_eq_bind, Option.bind_some, hov]
        rfl
      exact ⟨_, e, rfl, hs, hset, hpos, hwin, rfl⟩
  | false =>
      have e : s.sendPacket header ptr queued =
          registerSend { s with sendOv := ov, isSending := true } ptr queued := by
        simp only [sendPacket, hsum, if_neg hroom.not_gt, if_neg hmem.not_gt, hwrite, hs,
          Option.bind_eq_bind, Option.bind_some, Bool.false_eq_true, if_false, hov]
      have post :=
        registerSend_posts (s := { s with sendOv := ov, isSending := true }) hset rfl ptr queued
      exact ⟨_, e.trans post, rfl, rfl, ⟨hset.size, hset.low, hset.le, hset.fits⟩, hpos, hwin, rfl⟩

/-- **`OnSend`.**  The bytes reported leave the window.  What is left is posted, and if nothing is
left the session is idle. -/
theorem onSend_spec (h : s.sendOv.Settled) (hs : s.isSending = true) {n : Nat}
    (hn : n ≤ s.sendOv.window.length) (ptr : Option Nat) (queued : Bool) :
    ∃ r, s.onSend n ptr queued = some r ∧ r.session.sendOv.Settled ∧
      r.session.sendOv.window = s.sendOv.window.drop n ∧
      (r.session.isSending = false → r.session.sendOv.window = []) ∧
      r.io = if r.session.isSending
        then some ⟨r.session.sendOv.recvPos, r.session.sendOv.window.length⟩ else none := by
  obtain ⟨hspans, hdrop⟩ := h.spans.advance hn
  obtain ⟨hset, hwin⟩ := hspans.wrap
  rw [hdrop] at hwin
  generalize hov : ({ s.sendOv with recvPos := u64 (s.sendOv.recvPos + n) } : OverlappedEx).wrap = ov
    at hset hwin
  by_cases he : ov.recvPos = ov.sendPos
  · have hnil : ov.window = [] := by
      rw [OverlappedEx.window, he, Nat.sub_self, Mirror.peek_zero]
    have e : s.onSend n ptr queued =
        some ⟨{ s with sendOv := ov, isSending := false }, true, none⟩ := by
      simp only [onSend, hs, if_true, hov, if_pos he]
    exact ⟨_, e, hset, hwin, fun _ => hnil, rfl⟩
  · have e : s.onSend n ptr queued = registerSend { s with sendOv := ov } ptr queued := by
      simp only [onSend, hs, if_true, hov, if_neg he]
    have post := registerSend_posts (s := { s with sendOv := ov }) hset hs ptr queued
    refine ⟨_, e.trans post, ⟨hset.size, hset.low, hset.le, hset.fits⟩, hwin, fun hf => ?_, ?_⟩
    · exact absurd (hs.symm.trans hf) Bool.noConfusion
    · exact (if_pos hs).symm

end Session

/-- An outstanding `WSASend`: the buffer it was given, and the bytes there at the call. -/
structure Flight where
  wsaBuf : WsaBuf
  bytes : List Byte
  deriving DecidableEq

/-- One session's sending side: the session, the packets for which `SendPacket` returned `true`,
the bytes completed, and the `WSASend`s outstanding. -/
structure Sender where
  session : Session
  accepted : List (List Byte)
  completed : List Byte
  outstanding : List Flight

/-- A call of `SendPacket` on the packet at the start of a memory, or a send completion. -/
inductive SendEvent where
  | send (header : List Byte) (ptr : Option Nat)
  | complete (bytesTransferred : Nat) (ptr : Option Nat)

namespace Sender

/-- `s` with nothing sent. -/
def start (s : Session) : Sender := ⟨s, [], [], []⟩

/-- After a call that came to `r`: the `WSASend` it posted joins the outstanding ones. -/
def after (r : Registered) (accepted : List (List Byte)) (completed : List Byte)
    (outstanding : List Flight) : Option Sender :=
  match r.io with
  | none => some ⟨r.session, accepted, completed, outstanding⟩
  | some w => do
    let bytes ← r.session.sendOv.buffer.read w.buf w.len
    return ⟨r.session, accepted, completed, outstanding ++ [⟨w, bytes⟩]⟩

/-- One event.  The bytes a completion reports are taken out of the ring when it comes. -/
def step (st : Sender) : SendEvent → Option Sender
  | .send header ptr => do
    let r ← st.session.sendPacket header ptr true
    let accepted :=
      if r.ok then st.accepted ++ [header.take (headerSize header)] else st.accepted
    after r accepted st.completed st.outstanding
  | .complete bytesTransferred ptr =>
    match st.outstanding with
    | [] => none
    | f :: rest => do
      let bytes ← st.session.sendOv.buffer.read f.wsaBuf.buf bytesTransferred
      let r ← st.session.onSend bytesTransferred ptr true
      after r st.accepted (st.completed ++ bytes) rest

/-- A packet lies in its memory, and a completion reports at least one of the bytes posted and no
more than all. -/
def Legit (st : Sender) : SendEvent → Prop
  | .send header _ => headerSize header ≤ header.length
  | .complete n _ => ∃ f ∈ st.outstanding.head?, 1 ≤ n ∧ n ≤ f.wsaBuf.len

/-- The window is what of the accepted packets is not completed, and a session that is sending has
one `WSASend` outstanding, on a first part of the window. -/
structure Inv (st : Sender) : Prop where
  settled : st.session.sendOv.Settled
  stream : st.completed ++ st.session.sendOv.window = st.accepted.flatten
  idle : st.session.isSending = false → st.outstanding = [] ∧ st.session.sendOv.window = []
  busy : st.session.isSending = true → ∃ f, st.outstanding = [f] ∧
    f.wsaBuf.buf = st.session.sendOv.recvPos ∧
    f.wsaBuf.len ≤ st.session.sendOv.window.length ∧
    f.bytes = st.session.sendOv.window.take f.wsaBuf.len

theorem start_inv {s : Session} (h : s.sendOv.Empty) (hs : s.isSending = false) : (start s).Inv where
  settled := h.settled
  stream := by
    rw [start, h.window]
    rfl
  idle _ := ⟨rfl, h.window⟩
  busy hb := absurd (hs.symm.trans hb) Bool.noConfusion

/-- A call that posts the whole window with nothing outstanding. -/
theorem after_posted {r : Registered} (h : r.session.sendOv.Settled)
    (hs : r.session.isSending = true)
    (hio : r.io = some ⟨r.session.sendOv.recvPos, r.session.sendOv.window.length⟩)
    {accepted : List (List Byte)} {completed : List Byte}
    (hstream : completed ++ r.session.sendOv.window = accepted.flatten) :
    ∃ st, after r accepted completed [] = some st ∧ st.Inv := by
  refine ⟨⟨r.session, accepted, completed,
    [⟨⟨r.session.sendOv.recvPos, r.session.sendOv.window.length⟩, r.session.sendOv.window⟩]⟩, ?_, ?_⟩
  · simp only [after, hio, h.spans.read le_rfl, List.take_length, Option.bind_eq_bind,
      Option.bind_some]
    rfl
  · refine ⟨h, hstream, fun hf => ?_, fun _ => ⟨_, rfl, rfl, le_rfl, List.take_length.symm⟩⟩
    exact absurd (hs.symm.trans hf) Bool.noConfusion

/-- **One event.**  It is served without a fault and keeps the invariant. -/
theorem step_inv {st : Sender} (h : st.Inv) {e : SendEvent} (he : st.Legit e) :
    ∃ st', step st e = some st' ∧ st'.Inv := by
  cases e with
  | send header ptr =>
      have hmem : headerSize header ≤ header.length := he
      by_cases hroom : st.session.sendOv.window.length + headerSize header ≤
          st.session.sendOv.buffer.size
      · obtain ⟨r, hr, hok, hs, hset, hpos, hwin, hio⟩ :=
          Session.sendPacket_accept h.settled hroom hmem ptr true
        rw [Bool.or_true] at hok
        have hstream : st.completed ++ r.session.sendOv.window =
            (st.accepted ++ [header.take (headerSize header)]).flatten := by
          rw [hwin, ← List.append_assoc, h.stream, List.flatten_append, List.flatten_singleton]
        have e : step st (.send header ptr) =
            after r (st.accepted ++ [header.take (headerSize header)]) st.completed
              st.outstanding := by
          simp only [step, hr, hok, if_true, Option.bind_eq_bind, Option.bind_some]
        rw [e]
        cases hb : st.session.isSending with
        | false =>
            rw [hb] at hio
            rw [(h.idle hb).1]
            exact after_posted hset hs hio hstream
        | true =>
            rw [hb, if_pos rfl] at hio
            obtain ⟨f, hf, hbuf, hlen, hbytes⟩ := h.busy hb
            refine ⟨⟨r.session, st.accepted ++ [header.take (headerSize header)], st.completed,
              st.outstanding⟩, by simp only [after, hio], hset, hstream, fun hf => ?_, fun _ => ?_⟩
            · exact absurd (hs.symm.trans hf) Bool.noConfusion
            · -- the packet is behind the bytes already posted
              refine ⟨f, hf, hbuf.trans hpos.symm, ?_, ?_⟩
              · rw [hwin, List.length_append]
                exact hlen.trans (Nat.le_add_right _ _)
              · rw [hwin, List.take_append_of_le_length hlen]
                exact hbytes
      · have hr := Session.sendPacket_reject h.settled (not_le.mp hroom) ptr true
        refine ⟨st, ?_, h⟩
        simp only [step, hr, after, Option.bind_eq_bind, Option.bind_some, Bool.false_eq_true,
          if_false]
  | complete n ptr =>
      obtain ⟨f, hf, hpos, hle⟩ := he
      have hs : st.session.isSending = true := by
        cases hb : st.session.isSending with
        | true => rfl
        | false =>
            rw [(h.idle hb).1] at hf
            cases hf
      obtain ⟨g, hg, hbuf, hlen, hbytes⟩ := h.busy hs
      obtain rfl : g = f := by
        rw [hg] at hf
        exact Option.some.inj hf
      have hread := h.settled.spans.read (hle.trans hlen)
      obtain ⟨r, hr, hset, hwin, hidle, hio⟩ :=
        Session.onSend_spec h.settled hs (hle.trans hlen) ptr true
      have hstream : st.completed ++ st.session.sendOv.window.take n ++ r.session.sendOv.window =
          st.accepted.flatten := by
        rw [hwin, List.append_assoc, List.take_append_drop]
        exact h.stream
      have e : step st (.complete n ptr) =
          after r st.accepted (st.completed ++ st.session.sendOv.window.take n) [] := by
        simp only [step, hg, hbuf, hread, hr, Option.bind_eq_bind, Option.bind_some]
      rw [e]
      cases hb : r.session.isSending with
      | true =>
          rw [hb, if_pos rfl] at hio
          exact after_posted hset hb hio hstream
      | false =>
          rw [hb] at hio
          refine ⟨⟨r.session, st.accepted, st.completed ++ st.session.sendOv.window.take n, []⟩,
            by simp only [after, hio, Bool.false_eq_true, if_false], hset, hstream,
            fun _ => ⟨rfl, hidle hb⟩, fun ht => ?_⟩
          exact absurd (hb.symm.trans ht) Bool.noConfusion

/-- **The send stream.**  In every state of every run the bytes completed and the window are the
accepted packets in call order; at most one `WSASend` is outstanding, exactly while `isSending_` is
set, and it finds in the ring the bytes it was posted with; both positions keep inside the two
mappings; and the next event, whatever it is, is served without a fault. -/
theorem send_stream {s : Session} (h : s.sendOv.Empty) (hs : s.isSending = false)
    {es : List SendEvent} {st : Sender} (r : Runs step Legit (start s) es st) :
    st.completed ++ st.session.sendOv.window = st.accepted.flatten ∧
      st.outstanding.length ≤ 1 ∧
      (st.session.isSending = true ↔ st.outstanding ≠ []) ∧
      (∀ f ∈ st.outstanding,
        st.session.sendOv.buffer.read f.wsaBuf.buf f.wsaBuf.len = some f.bytes) ∧
      st.session.sendOv.recvPos < st.session.sendOv.buffer.size ∧
      st.session.sendOv.recvPos ≤ st.session.sendOv.sendPos ∧
      st.session.sendOv.sendPos ≤ st.session.sendOv.recvPos + st.session.sendOv.buffer.size ∧
      ∀ e, st.Legit e → ∃ st', step st e = some st' := by
  have hinv : st.Inv := by
    refine r.invariant (start_inv h hs) fun a e b ha hok hb => ?_
    obtain ⟨b', hb', hinv⟩ := step_inv ha hok
    obtain rfl : b = b' := Option.some.inj (hb.symm.trans hb')
    exact hinv
  have hserved : ∀ e, st.Legit e → ∃ st', step st e = some st' := by
    intro e he
    obtain ⟨st', hst', -⟩ := step_inv hinv he
    exact ⟨st', hst'⟩
  cases hb : st.session.isSending with
  | false =>
      obtain ⟨hout, -⟩ := hinv.idle hb
      rw [hout]
      exact ⟨hinv.stream, Nat.zero_le 1, by simp, by simp, hinv.settled.low, hinv.settled.le,
        hinv.settled.fits, hserved⟩
  | true =>
      obtain ⟨f, hout, hbuf, hlen, hbytes⟩ := hinv.busy hb
      rw [hout]
      refine ⟨hinv.stream, le_rfl, by simp, fun g hg => ?_, hinv.settled.low, hinv.settled.le,
        hinv.settled.fits, hserved⟩
      rw [List.mem_singleton.mp hg, hbuf, hbytes]
      exact hinv.settled.spans.read hlen

/-- A five-byte packet of which two bytes are completed. -/
theorem send_stream_split : ∃ st,
    Runs step Legit (start Session.fresh) [.send [5, 0, 2, 0, 65] none, .complete 2 none] st ∧
      [5, 0] ++ st.session.sendOv.window = [5, 0, 2, 0, 65] := by
  have sent : (step (start Session.fresh) (.send [5, 0, 2, 0, 65] none)).map Sender.outstanding =
      some [⟨⟨0, 5⟩, [5, 0, 2, 0, 65]⟩] := by decide +kernel
  obtain ⟨st₁, e₁, out₁⟩ := Option.map_eq_some_iff.mp sent
  have run₁ : Runs step Legit (start Session.fresh) [.send [5, 0, 2, 0, 65] none] st₁ :=
    .more .refl (by decide : headerSize [5, 0, 2, 0, 65] ≤ 5) e₁
  have completed : (exec step (start Session.fresh)
      [.send [5, 0, 2, 0, 65] none, .complete 2 none]).map
        (fun st => (st.accepted.flatten, st.completed)) = some ([5, 0, 2, 0, 65], [5, 0]) := by
    decide +kernel
  obtain ⟨st₂, e₂, out₂⟩ := Option.map_eq_some_iff.mp completed
  obtain ⟨haccepted, hcompleted⟩ := Prod.mk.inj out₂
  simp only [exec_cons, exec_nil, e₁, Option.bind_some, Option.bind_fun_some] at e₂
  have legit : Legit st₁ (.complete 2 none) :=
    ⟨⟨⟨0, 5⟩, [5, 0, 2, 0, 65]⟩, by rw [out₁]; rfl, by decide, by decide⟩
  have run₂ := run₁.more legit e₂
  obtain ⟨hstream, -⟩ := send_stream ⟨rfl, rfl, rfl⟩ rfl run₂
  rw [hcompleted, haccepted] at hstream
  exact ⟨st₂, run₂, hstream⟩

end Sender

end IocpServer
