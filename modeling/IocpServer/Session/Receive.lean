import IocpServer.Session.Window
import IocpServer.Support.Records
import IocpServer.Support.Runs

/-!
# Session — Receive

The receiving side of one session over whole runs.  A run is a sequence of receive completions:
Winsock stores a completion's bytes where the outstanding `WSARecv` points, in the mirrored buffer,
and `OnRecv` is called.

* `drain_spec`: the loop of `OnRecv` ends, and cuts the window into the records it hands over and
  an unparsed tail.
* `onRecv_spec`: one call, with the next `WSARecv` it posts.
* `receive_framing`: after every run the records handed over and the bytes left in the window are
  the parse of all the bytes received.
-/

namespace IocpServer

/-- The header is read from the first four bytes. -/
theorem readsHeader : Records.ReadsHeader kHeaderSize headerSize := fun _ b h => headerSize_append b h

/-- The records of a stream of packets. -/
abbrev Framed (bs : List Byte) (fs : List (List Byte)) (t : List Byte) : Prop :=
  Records.Parsed kHeaderSize headerSize bs fs t

/-- `bs` begins with a whole packet. -/
abbrev WholePacket (bs : List Byte) : Prop := Records.Complete kHeaderSize headerSize bs

/-- `bs` begins with a header whose size is below `sizeof(PACKET_HEADER)`. -/
abbrev BadHeader (bs : List Byte) : Prop := Records.Malformed kHeaderSize headerSize bs

namespace Session

variable {σ : Type} {ov : OverlappedEx}

/-- A size field is below the size of the buffer. -/
theorem headerSize_lt_buffer (h : ov.Spans) (bs : List Byte) :
    ¬ ov.buffer.size ≤ headerSize bs := by
  have hn : ov.buffer.size = 65536 := h.size
  have := headerSize_lt bs
  omega

/-- A pass where the window begins with a whole packet hands it over. -/
theorem drainBody_whole (post : σ → List Byte → Option σ) (h : ov.Spans) (env : σ)
    (hw : WholePacket ov.window) :
    drainBody post (ov, env) = (post env (ov.window.take (headerSize ov.window))).map fun env' =>
      .again ({ ov with recvPos := u64 (ov.recvPos + headerSize ov.window) }, env') := by
  obtain ⟨h₁, h₂, h₃⟩ := hw
  have hbad : ¬ (headerSize ov.window < kHeaderSize ∨ ov.buffer.size ≤ headerSize ov.window) :=
    not_or.mpr ⟨h₂.not_gt, headerSize_lt_buffer h _⟩
  simp only [drainBody, h.available, if_neg h₁.not_gt, h.read h₁, Option.bind_eq_bind,
    Option.bind_some, headerSize_take le_rfl, if_neg hbad, if_neg h₃.not_gt, h.read h₃]
  cases post env (ov.window.take (headerSize ov.window)) with
  | none => rfl
  | some env' => rfl

/-- Any other pass leaves the loop; it fails `OnRecv` at a bad header only. -/
theorem drainBody_leave (post : σ → List Byte → Option σ) (h : ov.Spans) (env : σ)
    (hw : ¬ WholePacket ov.window) :
    drainBody post (ov, env) = some (.leave (ov, env, !decide (BadHeader ov.window))) := by
  by_cases h₁ : ov.window.length < kHeaderSize
  · have hb : ¬ BadHeader ov.window := fun hb => absurd hb.1 h₁.not_ge
    simp only [drainBody, h.available, if_pos h₁, hb, decide_false, Bool.not_false]
  · have h₁' : kHeaderSize ≤ ov.window.length := not_lt.mp h₁
    by_cases h₂ : headerSize ov.window < kHeaderSize
    · have hb : BadHeader ov.window := ⟨h₁', h₂⟩
      simp only [drainBody, h.available, if_neg h₁, h.read h₁', Option.bind_eq_bind,
        Option.bind_some, headerSize_take le_rfl, if_pos (Or.inl h₂), hb, decide_true,
        Bool.not_true]
      rfl
    · have hb : ¬ BadHeader ov.window := fun hb => h₂ hb.2
      have hbad : ¬ (headerSize ov.window < kHeaderSize ∨
          ov.buffer.size ≤ headerSize ov.window) := not_or.mpr ⟨h₂, headerSize_lt_buffer h _⟩
      have h₃ : ov.window.length < headerSize ov.window :=
        not_le.mp fun h₃ => hw ⟨h₁', not_lt.mp h₂, h₃⟩
      simp only [drainBody, h.available, if_neg h₁, h.read h₁', Option.bind_eq_bind,
        Option.bind_some, headerSize_take le_rfl, if_neg hbad, if_pos h₃, hb, decide_false,
        Bool.not_false]
      rfl

/-- A pass that leaves the loop changes nothing. -/
theorem drainBody_leave_eq {post : σ → List Byte → Option σ} {env env' : σ} {ov' : OverlappedEx}
    {ok : Bool} (h : drainBody post (ov, env) = some (.leave (ov', env', ok))) :
    ov' = ov ∧ env' = env := by
  simp only [drainBody] at h
  split at h
  · cases h
    exact ⟨rfl, rfl⟩
  · obtain ⟨header, -, h⟩ := Option.bind_eq_some_iff.mp h
    split at h
    · cases h
      exact ⟨rfl, rfl⟩
    · split at h
      · cases h
        exact ⟨rfl, rfl⟩
      · obtain ⟨frame, -, h⟩ := Option.bind_eq_some_iff.mp h
        obtain ⟨env₁, -, h⟩ := Option.bind_eq_some_iff.mp h
        cases h

/-- What the loop has come to at `r`, from `ov` with the rest of the server in `env`: `fs` was
handed over. -/
structure Cut (p : σ → List Byte → σ) (ov : OverlappedEx) (env : σ) (fs : List (List Byte))
    (ov' : OverlappedEx) (env' : σ) : Prop where
  spans : ov'.Spans
  window : ov.window = fs.flatten ++ ov'.window
  records : ∀ f ∈ fs, kHeaderSize ≤ f.length ∧ headerSize f = f.length
  env : env' = fs.foldl p env

/-- One more packet. -/
theorem Cut.next {p : σ → List Byte → σ} {env env' : σ} {fs : List (List Byte)}
    {ov' : OverlappedEx} (h : Cut p ov env fs ov' env') (hw : WholePacket ov'.window) :
    Cut p ov env (fs ++ [ov'.window.take (headerSize ov'.window)])
      { ov' with recvPos := u64 (ov'.recvPos + headerSize ov'.window) }
      (p env' (ov'.window.take (headerSize ov'.window))) where
  spans := (h.spans.advance hw.2.2).1
  window := by
    rw [(h.spans.advance hw.2.2).2, List.flatten_append, List.flatten_singleton, List.append_assoc,
      List.take_append_drop]
    exact h.window
  records f hf := by
    rcases List.mem_append.mp hf with hf | hf
    · exact h.records f hf
    · rw [List.mem_singleton.mp hf]
      exact Records.record_take readsHeader hw
  env := by rw [h.env, List.foldl_append, List.foldl_cons, List.foldl_nil]

/-- **The loop of `OnRecv`.**  With more fuel than bytes in the window it ends with the window cut
into packets and a tail, and asks for `return false` exactly when the tail begins with a bad
header. -/
theorem drain_spec (p : σ → List Byte → σ) (h : ov.Spans) (env : σ) {fuel : Nat}
    (hf : ov.window.length < fuel) :
    ∃ fs ov', Loop.run (drainBody fun e f => some (p e f)) fuel (ov, env) =
        some (ov', fs.foldl p env, !decide (BadHeader ov'.window)) ∧
      ov'.Spans ∧ Framed ov.window fs ov'.window := by
  have key : ∃ r, Loop.run (drainBody fun e f => some (p e f)) fuel (ov, env) = some r ∧
      ∃ fs, Cut p ov env fs r.1 r.2.1 ∧ ¬ WholePacket r.1.window ∧
        r.2.2 = !decide (BadHeader r.1.window) := by
    refine Loop.run_of_measure (I := fun s => ∃ fs, Cut p ov env fs s.1 s.2)
      (μ := fun s => s.1.window.length) ?_ ⟨[], ⟨h, rfl, by simp, rfl⟩⟩ hf
    rintro ⟨ov', env'⟩ ⟨fs, hcut⟩
    have hcut : Cut p ov env fs ov' env' := hcut
    by_cases hw : WholePacket ov'.window
    · right
      refine ⟨_, (drainBody_whole _ hcut.spans env' hw).trans rfl, ⟨_, hcut.next hw⟩, ?_⟩
      -- a packet is at least its header long, so the window gets shorter
      have hlen : (4 : Nat) ≤ headerSize ov'.window := hw.2.1
      have := hw.2.2
      show ({ ov' with recvPos := _ } : OverlappedEx).window.length < ov'.window.length
      rw [(hcut.spans.advance hw.2.2).2, List.length_drop]
      omega
    · left
      exact ⟨_, drainBody_leave _ hcut.spans env' hw, fs, hcut, hw, rfl⟩
  obtain ⟨⟨ov', env', b⟩, hrun, fs, hcut, hw, hb⟩ := key
  refine ⟨fs, ov', ?_, hcut.spans, hcut.window, hcut.records, hw⟩
  rw [hrun]
  exact congrArg some (Prod.ext rfl (Prod.ext hcut.env hb))

/-- `RegisterRecv` offers Winsock the whole free part of the ring. -/
theorem registerRecv_spec {s : Session} (h : s.recvOv.Settled) (ptr : Option Nat) (queued : Bool)
    (hroom : s.recvOv.window.length < s.recvOv.buffer.size) :
    ∃ w, (s.registerRecv ptr queued).io = some w ∧ (s.registerRecv ptr queued).ok = queued ∧
      (s.registerRecv ptr queued).session.recvOv = { s.recvOv with
        ioType := .kRecv, wsaBuf := w, sessionPtr := if queued then ptr else none } ∧
      w.buf = s.recvOv.sendPos ∧ w.len + s.recvOv.window.length = s.recvOv.buffer.size := by
  have hn : s.recvOv.buffer.size = 65536 := h.size
  have hlow := h.low
  have hle := h.le
  have hfits := h.fits
  rw [OverlappedEx.window_length] at hroom ⊢
  -- the subtraction wraps below zero when the window lies across the end of the buffer
  have hlen : u32 (u64 (sub64 s.recvOv.buffer.size s.recvOv.sendPos + s.recvOv.recvPos)) =
      s.recvOv.buffer.size - (s.recvOv.sendPos - s.recvOv.recvPos) := by
    unfold u32 u64 sub64 u64
    omega
  have hpos : s.recvOv.buffer.size - (s.recvOv.sendPos - s.recvOv.recvPos) ≠ 0 := by omega
  refine ⟨⟨s.recvOv.sendPos, s.recvOv.buffer.size - (s.recvOv.sendPos - s.recvOv.recvPos)⟩,
    ?_, ?_, ?_, rfl, ?_⟩
  · simp only [registerRecv, hlen, if_neg hpos]
  · simp only [registerRecv, hlen, if_neg hpos]
  · simp only [registerRecv, hlen, if_neg hpos]
  · show s.recvOv.buffer.size - (s.recvOv.sendPos - s.recvOv.recvPos) +
      (s.recvOv.sendPos - s.recvOv.recvPos) = s.recvOv.buffer.size
    omega

/-- When that succeeds. -/
theorem registerRecv_posts {s : Session} (h : s.recvOv.Settled) (ptr : Option Nat)
    (hroom : s.recvOv.window.length < s.recvOv.buffer.size) :
    ∃ w, (s.registerRecv ptr true).io = some w ∧ (s.registerRecv ptr true).ok = true ∧
      (s.registerRecv ptr true).session.recvOv =
        { s.recvOv with ioType := .kRecv, wsaBuf := w, sessionPtr := ptr } ∧
      w.buf = s.recvOv.sendPos ∧ w.len + s.recvOv.window.length = s.recvOv.buffer.size :=
  registerRecv_spec h ptr true hroom

/-- A full ring would begin with a whole packet, since a size field is below `kBufferSize`. -/
theorem room_of_partial (h : ov.Spans) (hw : ¬ WholePacket ov.window) (hb : ¬ BadHeader ov.window) :
    ov.window.length < ov.buffer.size := by
  by_contra hfull
  have hn : ov.buffer.size = 65536 := h.size
  have hsz := headerSize_lt ov.window
  have hge : (4 : Nat) ≤ ov.window.length := by omega
  exact hw ⟨hge, not_lt.mp fun hlt => hb ⟨hge, hlt⟩, by omega⟩

/-- **`OnRecv`.**  It hands over the packets of the window extended by the new bytes, and keeps the
tail; it returns `true` with the free part of the ring posted, or `false` at a bad header. -/
theorem onRecv_spec (p : σ → List Byte → σ) {s : Session} (env : σ) {n : Nat} (ptr : Option Nat)
    (h : ({ s.recvOv with sendPos := u64 (s.recvOv.sendPos + n) } : OverlappedEx).Spans)
    {fuel : Nat} (hf : Config.kBufferSize < fuel) :
    ∃ fs r, onRecv (fun e f => some (p e f)) fuel s env n ptr true = some (r, fs.foldl p env) ∧
      r.session.recvOv.Spans ∧
      Framed ({ s.recvOv with sendPos := u64 (s.recvOv.sendPos + n) } : OverlappedEx).window fs
        r.session.recvOv.window ∧
      (r.ok = false ↔ BadHeader r.session.recvOv.window) ∧
      (r.ok = false → r.io = none) ∧
      (r.ok = true → r.session.recvOv.Settled ∧ ∃ w, r.io = some w ∧
        w.buf = r.session.recvOv.sendPos ∧
        w.len + r.session.recvOv.window.length = r.session.recvOv.buffer.size) := by
  generalize hov : ({ s.recvOv with sendPos := u64 (s.recvOv.sendPos + n) } : OverlappedEx) = ov
    at h ⊢
  have hlen : ov.window.length ≤ Config.kBufferSize := by
    have hn := h.size
    have hfits := h.fits
    rw [OverlappedEx.window_length]
    omega
  obtain ⟨fs, ov', hrun, hspans, hparsed⟩ := drain_spec p h env (hlen.trans_lt hf)
  by_cases hb : BadHeader ov'.window
  · refine ⟨fs, ⟨{ s with recvOv := ov' }, false, none⟩, ?_, hspans, hparsed, ?_, ?_, ?_⟩
    · simp only [onRecv, hov, hrun, hb, decide_true, Bool.not_true, Option.bind_eq_bind,
        Option.bind_some]
      rfl
    · exact iff_of_true rfl hb
    · intro _
      rfl
    · intro hok
      cases hok
  · obtain ⟨hset, hwin⟩ := hspans.wrap
    have hroom : ov'.wrap.window.length < ov'.wrap.buffer.size := by
      rw [hwin, OverlappedEx.wrap_buffer]
      exact room_of_partial hspans hparsed.maximal hb
    obtain ⟨w, hio, hok, hsess, hbufw, hlenw⟩ :=
      registerRecv_posts (s := { s with recvOv := ov'.wrap }) hset ptr hroom
    have hw' : (registerRecv { s with recvOv := ov'.wrap } ptr true).session.recvOv.window =
        ov'.window := by
      rw [hsess]
      exact hwin
    have hset' : (registerRecv { s with recvOv := ov'.wrap } ptr true).session.recvOv.Settled := by
      rw [hsess]
      exact ⟨hset.size, hset.low, hset.le, hset.fits⟩
    refine ⟨fs, registerRecv { s with recvOv := ov'.wrap } ptr true, ?_, hset'.spans, ?_, ?_, ?_, ?_⟩
    · simp only [onRecv, hov, hrun, hb, decide_false, Bool.not_false, Option.bind_eq_bind,
        Option.bind_some]
      rfl
    · rw [hw']
      exact hparsed
    · rw [hw', hok]
      exact iff_of_false Bool.noConfusion hb
    · rw [hok]
      intro hne
      cases hne
    · intro _
      refine ⟨hset', w, hio, ?_, ?_⟩
      · rw [hsess]
        exact hbufw
      · rw [hw', hsess, ← hwin]
        exact hlenw

end Session

/-- One session's receiving side: the session, the packets handed to `AcquirePacket` and
`PostTask`, the outstanding `WSARecv`, and what the last call returned. -/
structure Receiver where
  session : Session
  handed : List (List Byte)
  posted : Option WsaBuf
  ok : Bool

/-- A receive completion: the bytes Winsock stored, and what `GetSession` then returns to
`RegisterRecv`. -/
structure Completion where
  data : List Byte
  ptr : Option Nat

/-- All the bytes a sequence of completions brings. -/
def received (es : List Completion) : List Byte := es.flatMap Completion.data

namespace Receiver

/-- After a call that came to `r`. -/
def after (handed : List (List Byte)) (r : Registered) : Receiver := ⟨r.session, handed, r.io, r.ok⟩

/-- After `Connect` has posted the first `WSARecv`. -/
def connect (s : Session) (ptr : Option Nat) : Receiver := after [] (s.registerRecv ptr true)

/-- Winsock stores at least one byte, and no more than it was given room for. -/
def Legit (st : Receiver) (c : Completion) : Prop :=
  ∃ w, st.posted = some w ∧ 1 ≤ c.data.length ∧ c.data.length ≤ w.len

/-- A receive completion: the bytes are stored at `wsaBuf_.buf`, and `OnRecv` is called. -/
def complete (fuel : Nat) (st : Receiver) (c : Completion) : Option Receiver := do
  let w ← st.posted
  let buffer ← st.session.recvOv.buffer.write w.buf c.data
  let (r, handed) ← Session.onRecv (fun handed frame => some (handed ++ [frame])) fuel
    { st.session with recvOv := { st.session.recvOv with buffer } } st.handed c.data.length c.ptr true
  return after handed r

/-- After the bytes `bs` the packets handed over and the window are a parse of `bs`, and unless it
has met a bad header the session has posted the free part of its ring. -/
structure Inv (bs : List Byte) (st : Receiver) : Prop where
  spans : st.session.recvOv.Spans
  framed : Framed bs st.handed st.session.recvOv.window
  ok : st.ok = false ↔ BadHeader st.session.recvOv.window
  stopped : st.ok = false → st.posted = none
  posted : st.ok = true → st.session.recvOv.Settled ∧ ∃ w, st.posted = some w ∧
    w.buf = st.session.recvOv.sendPos ∧
    w.len + st.session.recvOv.window.length = st.session.recvOv.buffer.size

/-- With nothing received and nothing handed over. -/
theorem inv_nil {r : Registered} (hset : r.session.recvOv.Settled)
    (hwin : r.session.recvOv.window = []) (hok : r.ok = true) {w : WsaBuf} (hio : r.io = some w)
    (hbuf : w.buf = r.session.recvOv.sendPos) (hlen : w.len = r.session.recvOv.buffer.size) :
    (after [] r).Inv [] := by
  have hnone : ¬ kHeaderSize ≤ ([] : List Byte).length := by decide
  refine ⟨hset.spans, ?_, ?_, fun h => ?_, fun _ => ⟨hset, w, hio, hbuf, ?_⟩⟩
  · show Framed [] [] r.session.recvOv.window
    rw [hwin]
    exact ⟨rfl, fun f hf => absurd hf List.not_mem_nil, fun hc => hnone hc.1⟩
  · show r.ok = false ↔ BadHeader r.session.recvOv.window
    rw [hwin, hok]
    exact iff_of_false Bool.noConfusion fun hb => hnone hb.1
  · exact Bool.noConfusion (hok.symm.trans h)
  · show w.len + r.session.recvOv.window.length = r.session.recvOv.buffer.size
    rw [hwin, hlen, List.length_nil, Nat.add_zero]

theorem connect_inv {s : Session} (hs : s.recvOv.Empty) (ptr : Option Nat) :
    (connect s ptr).Inv [] := by
  have hn : s.recvOv.buffer.size = 65536 := hs.size
  have hset := hs.settled
  obtain ⟨w, hio, hok, hsess, hbuf, hlen⟩ := Session.registerRecv_posts hset ptr (by
    rw [hs.window, List.length_nil]
    omega)
  rw [hs.window, List.length_nil, Nat.add_zero] at hlen
  refine inv_nil ?_ ?_ hok hio ?_ ?_ <;> rw [hsess]
  · exact ⟨hset.size, hset.low, hset.le, hset.fits⟩
  · exact hs.window
  · exact hbuf
  · exact hlen

theorem foldl_record (fs handed : List (List Byte)) :
    fs.foldl (fun handed frame => handed ++ [frame]) handed = handed ++ fs := by
  rw [List.foldl_append_eq_append, ← List.flatMap_def, List.flatMap_singleton']

/-- **One completion.**  It is served without a fault, and keeps the parse. -/
theorem complete_inv {fuel : Nat} (hf : Config.kBufferSize < fuel) {bs : List Byte} {st : Receiver}
    (h : st.Inv bs) {c : Completion} (hc : st.Legit c) :
    ∃ st', complete fuel st c = some st' ∧ st'.Inv (bs ++ c.data) := by
  obtain ⟨w, hw, -, hlen⟩ := hc
  have hok : st.ok = true := by
    cases hb : st.ok with
    | true => rfl
    | false => exact absurd (h.stopped hb ▸ hw) (Option.some_ne_none w).symm
  obtain ⟨hset, w', hw', hbuf, hroom⟩ := h.posted hok
  obtain rfl : w = w' := Option.some.inj (hw.symm.trans hw')
  have hn : st.session.recvOv.buffer.size = 65536 := hset.size
  have hfree : st.session.recvOv.window.length + c.data.length ≤ st.session.recvOv.buffer.size := by
    omega
  obtain ⟨buffer, hwrite, hspans, hwin⟩ := hset.extend hfree
  obtain ⟨fs, r, hrun, hspans', hframed, hbad, hstop, hpost⟩ :=
    Session.onRecv_spec (fun handed frame => handed ++ [frame])
      (s := { st.session with recvOv := { st.session.recvOv with buffer } }) st.handed c.ptr
      hspans.spans hf
  refine ⟨after (st.handed ++ fs) r, ?_, ?_⟩
  · simp only [complete, hw, hbuf, hwrite, hrun, foldl_record, Option.bind_eq_bind,
      Option.bind_some]
    rfl
  · rw [hwin] at hframed
    exact ⟨hspans', h.framed.append hframed, hbad, hstop, hpost⟩

section Run

variable {s : Session} {ptr : Option Nat} {fuel : Nat} {es : List Completion} {st : Receiver}

theorem run_inv (hs : s.recvOv.Empty) (hf : Config.kBufferSize < fuel)
    (r : Runs (complete fuel) Legit (connect s ptr) es st) : st.Inv (received es) := by
  refine Runs.invariant_events (I := fun es st => st.Inv (received es)) r (connect_inv hs ptr) ?_
  intro es a c b ha hc hb
  obtain ⟨b', hb', hinv⟩ := complete_inv hf ha hc
  obtain rfl : b = b' := Option.some.inj (hb.symm.trans hb')
  rw [received, List.flatMap_append, List.flatMap_singleton]
  exact hinv

/-- **Framing is independent of fragmentation.**  After any sequence of completions the packets
handed over and the bytes left in the window are the parse of the bytes received, the last call
returned `false` exactly if that parse has come to a bad header, and the next completion, whatever
it brings, is served without a fault. -/
theorem receive_framing (hs : s.recvOv.Empty) (hf : Config.kBufferSize < fuel)
    (r : Runs (complete fuel) Legit (connect s ptr) es st) :
    (st.handed, st.session.recvOv.window) = Records.parse kHeaderSize headerSize (received es) ∧
      st.session.recvOv.recvPos ≤ st.session.recvOv.sendPos ∧
      st.session.recvOv.sendPos ≤ st.session.recvOv.recvPos + st.session.recvOv.buffer.size ∧
      (st.ok = false ↔ BadHeader (Records.parse kHeaderSize headerSize (received es)).2) ∧
      ∀ c, st.Legit c → ∃ st', complete fuel st c = some st' := by
  have hinv := run_inv hs hf r
  have hparse := hinv.framed.eq_parse readsHeader (by decide)
  refine ⟨hparse, hinv.spans.le, hinv.spans.fits, ?_, fun c hc => ?_⟩
  · rw [← hparse]
    exact hinv.ok
  · obtain ⟨st', hst', -⟩ := complete_inv hf hinv hc
    exact ⟨st', hst'⟩

/-- A five-byte packet in two completions, the first of which ends inside its header. -/
theorem receive_framing_split : ∃ st,
    Runs (complete 65537) Legit (connect Session.fresh none) [⟨[5, 0, 2], none⟩, ⟨[0, 65], none⟩] st ∧
      (st.handed, st.session.recvOv.window) = ([[5, 0, 2, 0, 65]], []) := by
  have posted₁ : (complete 65537 (connect Session.fresh none) ⟨[5, 0, 2], none⟩).map Receiver.posted =
      some (some ⟨3, 65533⟩) := by decide +kernel
  obtain ⟨st₁, e₁, w₁⟩ := Option.map_eq_some_iff.mp posted₁
  have run₁ : Runs (complete 65537) Legit (connect Session.fresh none) [⟨[5, 0, 2], none⟩] st₁ :=
    .more .refl ⟨⟨0, 65536⟩, by decide +kernel, by decide, by decide⟩ e₁
  have legit : Legit st₁ ⟨[0, 65], none⟩ := ⟨_, w₁, by decide, by decide⟩
  obtain ⟨-, -, -, -, served⟩ := receive_framing ⟨rfl, rfl, rfl⟩ (by decide) run₁
  obtain ⟨st₂, e₂⟩ := served _ legit
  have run₂ := run₁.more legit e₂
  obtain ⟨hparse, -⟩ := receive_framing ⟨rfl, rfl, rfl⟩ (by decide) run₂
  exact ⟨st₂, run₂, hparse.trans (by decide +kernel)⟩

/-- What is handed over is a packet whose size field is its length. -/
theorem handed_accepted (hs : s.recvOv.Empty) (hf : Config.kBufferSize < fuel)
    (r : Runs (complete fuel) Legit (connect s ptr) es st) {f : List Byte} (h : f ∈ st.handed) :
    kHeaderSize ≤ f.length ∧ headerSize f = f.length :=
  (run_inv hs hf r).framed.records f h

/-- Every such packet can be handed over: a client sends it first. -/
theorem accepted_handed (hs : s.recvOv.Empty) (hf : Config.kBufferSize < fuel) {f : List Byte}
    (h : kHeaderSize ≤ f.length ∧ headerSize f = f.length) :
    ∃ es st, Runs (complete fuel) Legit (connect s ptr) es st ∧ f ∈ st.handed := by
  have hinv := connect_inv hs ptr
  have hn : (connect s ptr).session.recvOv.buffer.size = 65536 := hinv.spans.size
  have hlt := headerSize_lt f
  have hnil : (connect s ptr).session.recvOv.window = [] :=
    (List.append_eq_nil_iff.mp hinv.framed.eq.symm).2
  have hlegit : Legit (connect s ptr) ⟨f, none⟩ := by
    cases hok : (connect s ptr).ok with
    | false =>
        have hbad : kHeaderSize ≤ (connect s ptr).session.recvOv.window.length :=
          (hinv.ok.mp hok).1
        rw [hnil] at hbad
        exact absurd hbad (by decide)
    | true =>
        obtain ⟨-, w, hw, -, hlen⟩ := hinv.posted hok
        rw [hnil, List.length_nil, Nat.add_zero, hn] at hlen
        have h4 : (4 : Nat) ≤ f.length := h.1
        exact ⟨w, hw, show 1 ≤ f.length by omega, show f.length ≤ w.len by omega⟩
  obtain ⟨st, hst, hinv'⟩ := complete_inv hf hinv hlegit
  have hone : Framed f [f] [] := by
    refine ⟨by simp, fun g hg => ?_, fun hc => absurd hc.1 (by decide)⟩
    rw [List.mem_singleton.mp hg]
    exact h
  obtain ⟨hhanded, -⟩ := hone.unique readsHeader hinv'.framed
  exact ⟨_, st, .more .refl hlegit hst, hhanded ▸ List.mem_singleton_self f⟩

end Run

end Receiver

end IocpServer
