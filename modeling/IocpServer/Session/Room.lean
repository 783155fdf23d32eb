import IocpServer.Session.Receive

/-!
# Session — Room

The windows `RegisterRecv` posts.

* `Session.Roomy`: a session with room in its ring, whose posted window is the free part of it.
* `roomy_run`: every `RegisterRecv` that `Connect` or `OnRecv` calls is called on such a session, so
  its "recv buffer overflow" is never reported.
-/

namespace IocpServer

namespace Session

variable {σ : Type}

/-- The session on which `OnRecv` calls `RegisterRecv`, if its loop does not fail. -/
def recvCall (post : σ → List Byte → Option σ) (fuel : Nat) (s : Session) (env : σ)
    (bytesTransferred : Nat) : Option (Option Session × σ) := do
  let ov := { s.recvOv with sendPos := u64 (s.recvOv.sendPos + bytesTransferred) }
  let (ov, env, drained) ← Loop.run (drainBody post) fuel (ov, env)
  return (if drained then some { s with recvOv := ov.wrap } else none, env)

/-- `OnRecv` ends with that call. -/
theorem onRecv_of_recvCall {post : σ → List Byte → Option σ} {fuel : Nat} {s t : Session}
    {env env' : σ} {n : Nat} (h : recvCall post fuel s env n = some (some t, env'))
    (ptr : Option Nat) (queued : Bool) :
    onRecv post fuel s env n ptr queued = some (t.registerRecv ptr queued, env') := by
  rw [recvCall] at h
  obtain ⟨⟨ov, env₁, drained⟩, hrun, h⟩ := Option.bind_eq_some_iff.mp h
  cases drained with
  | false => cases h
  | true =>
    cases h
    simp only [onRecv, hrun, Option.bind_eq_bind, Option.bind_some]
    rfl

/-- There is room in the ring, and `RegisterRecv` posts exactly the free part of it. -/
structure Roomy (s : Session) : Prop where
  low : s.recvOv.recvPos < s.recvOv.buffer.size
  le : s.recvOv.recvPos ≤ s.recvOv.sendPos
  lt : s.recvOv.sendPos < s.recvOv.recvPos + s.recvOv.buffer.size
  posts : ∀ ptr queued, ∃ w, (s.registerRecv ptr queued).io = some w ∧
    (s.registerRecv ptr queued).ok = queued ∧ w.buf = s.recvOv.sendPos ∧
    w.len = s.recvOv.buffer.size - (s.recvOv.sendPos - s.recvOv.recvPos) ∧ 0 < w.len ∧
    w.buf + w.len ≤ 2 * s.recvOv.buffer.size ∧
    ∀ i < w.len, ∀ j < s.recvOv.sendPos - s.recvOv.recvPos,
      (w.buf + i) % s.recvOv.buffer.size ≠ (s.recvOv.recvPos + j) % s.recvOv.buffer.size

/-- Two places of one turn of the ring are different bytes. -/
theorem mod_ne_of_turn {n a i j : Nat} (hij : j < i) (hi : i < n) : (a + i) % n ≠ (a + j) % n := by
  intro h
  have hmod : i ≡ j [MOD n] := Nat.ModEq.add_left_cancel' a h
  have := Nat.ModEq.eq_of_lt_of_lt hmod hi (hij.trans hi)
  omega

theorem roomy_of_settled {s : Session} (h : s.recvOv.Settled)
    (hroom : s.recvOv.window.length < s.recvOv.buffer.size) : s.Roomy := by
  have hn : s.recvOv.buffer.size = 65536 := h.size
  have hlow := h.low
  have hle := h.le
  have hfits := h.fits
  rw [OverlappedEx.window_length] at hroom
  have hlen : u32 (u64 (sub64 s.recvOv.buffer.size s.recvOv.sendPos + s.recvOv.recvPos)) =
      s.recvOv.buffer.size - (s.recvOv.sendPos - s.recvOv.recvPos) := by
    unfold u32 u64 sub64 u64
    omega
  have hpos : s.recvOv.buffer.size - (s.recvOv.sendPos - s.recvOv.recvPos) ≠ 0 := by omega
  refine ⟨hlow, hle, by omega, fun ptr queued => ?_⟩
  refine ⟨⟨s.recvOv.sendPos, s.recvOv.buffer.size - (s.recvOv.sendPos - s.recvOv.recvPos)⟩,
    ?_, ?_, rfl, rfl, Nat.pos_of_ne_zero hpos, ?_, fun i hi j hj => ?_⟩
  · simp only [registerRecv, hlen, if_neg hpos]
  · simp only [registerRecv, hlen, if_neg hpos]
  · show s.recvOv.sendPos + (s.recvOv.buffer.size - (s.recvOv.sendPos - s.recvOv.recvPos)) ≤
      2 * s.recvOv.buffer.size
    omega
  · -- counted from `recvPos_`, the window posted is behind the unparsed bytes, in the same turn
    have hi' : i < s.recvOv.buffer.size - (s.recvOv.sendPos - s.recvOv.recvPos) := hi
    have hplace : s.recvOv.sendPos + i =
        s.recvOv.recvPos + (s.recvOv.sendPos - s.recvOv.recvPos + i) := by omega
    show (s.recvOv.sendPos + i) % _ ≠ _
    rw [hplace]
    exact mod_ne_of_turn (by omega) (by omega)

/-- **The loop of `OnRecv` leaves room.**  What it leaves in the window begins with no whole packet,
and a size field is below `kBufferSize`. -/
theorem recvCall_roomy (p : σ → List Byte → σ) {s : Session} (env : σ) {n : Nat}
    (h : ({ s.recvOv with sendPos := u64 (s.recvOv.sendPos + n) } : OverlappedEx).Spans)
    {fuel : Nat} (hf : Config.kBufferSize < fuel) :
    ∃ t env', recvCall (fun e f => some (p e f)) fuel s env n = some (t, env') ∧
      ∀ u ∈ t, u.Roomy := by
  generalize hov : ({ s.recvOv with sendPos := u64 (s.recvOv.sendPos + n) } : OverlappedEx) = ov at h
  have hlen : ov.window.length ≤ Config.kBufferSize := by
    have hn := h.size
    have hfits := h.fits
    rw [OverlappedEx.window_length]
    omega
  obtain ⟨fs, ov', hrun, hspans, hparsed⟩ := drain_spec p h env (hlen.trans_lt hf)
  have hcall : recvCall (fun e f => some (p e f)) fuel s env n =
      some (if !decide (BadHeader ov'.window) then some { s with recvOv := ov'.wrap } else none,
        fs.foldl p env) := by
    simp only [recvCall, hov, hrun, Option.bind_eq_bind, Option.bind_some]
    rfl
  refine ⟨_, _, hcall, fun u hu => ?_⟩
  by_cases hb : BadHeader ov'.window
  · simp [hb] at hu
  · simp only [hb, decide_false, Bool.not_false, if_true, Option.mem_def, Option.some.injEq] at hu
    subst hu
    obtain ⟨hset, hwin⟩ := hspans.wrap
    refine roomy_of_settled (s := { s with recvOv := ov'.wrap }) hset ?_
    by_contra hfull
    have hn : ov'.wrap.buffer.size = 65536 := hset.size
    have hsz := headerSize_lt ov'.window
    have hge : 65536 ≤ ov'.window.length := by
      rw [← hwin, ← hn]
      exact not_lt.mp hfull
    have h4 : (4 : Nat) ≤ ov'.window.length := by omega
    exact hparsed.maximal ⟨h4, not_lt.mp fun hlt => hb ⟨h4, hlt⟩, by omega⟩

end Session

namespace Receiver

/-- The session on which the `OnRecv` of a completion calls `RegisterRecv`, if it does, and the
packets it has handed over. -/
def recvCall (fuel : Nat) (st : Receiver) (c : Completion) :
    Option (Option Session × List (List Byte)) := do
  let w ← st.posted
  let buffer ← st.session.recvOv.buffer.write w.buf c.data
  Session.recvCall (fun handed frame => some (handed ++ [frame])) fuel
    { st.session with recvOv := { st.session.recvOv with buffer } } st.handed c.data.length

/-- **Every receive window is sound.**  `Connect` calls `RegisterRecv` with room in the ring, and so
does the `OnRecv` of every completion after every run that does not fail at a bad header. -/
theorem roomy_run {s : Session} {ptr : Option Nat} {fuel : Nat} {es : List Completion}
    {st : Receiver} (hs : s.recvOv.Empty) (hf : Config.kBufferSize < fuel)
    (r : Runs (complete fuel) Legit (connect s ptr) es st) :
    s.Roomy ∧ ∀ c, st.Legit c → ∃ call handed, recvCall fuel st c = some (call, handed) ∧
      ∀ t ∈ call, t.Roomy ∧
        complete fuel st c = some (after handed (t.registerRecv c.ptr true)) := by
  have hinv := run_inv hs hf r
  constructor
  · refine Session.roomy_of_settled hs.settled ?_
    have hn : s.recvOv.buffer.size = 65536 := hs.size
    rw [hs.window, List.length_nil]
    omega
  · intro c hc
    obtain ⟨w, hw, -, hlen⟩ := hc
    have hok : st.ok = true := by
      cases hb : st.ok with
      | true => rfl
      | false => exact absurd (hinv.stopped hb ▸ hw) (Option.some_ne_none w).symm
    obtain ⟨hset, w', hw', hbuf, hroom⟩ := hinv.posted hok
    obtain rfl : w = w' := Option.some.inj (hw.symm.trans hw')
    have hfree : st.session.recvOv.window.length + c.data.length ≤
        st.session.recvOv.buffer.size := by
      have hn : st.session.recvOv.buffer.size = 65536 := hset.size
      omega
    obtain ⟨buffer, hwrite, hspans, -⟩ := hset.extend hfree
    obtain ⟨call, handed, hcall, hroomy⟩ :=
      Session.recvCall_roomy (fun handed frame => handed ++ [frame])
        (s := { st.session with recvOv := { st.session.recvOv with buffer } }) st.handed
        hspans.spans hf
    refine ⟨call, handed, ?_, fun t ht => ⟨hroomy t ht, ?_⟩⟩
    · simp only [recvCall, hw, hbuf, hwrite, Option.bind_eq_bind, Option.bind_some]
      exact hcall
    · obtain rfl : call = some t := ht
      simp only [complete, hw, hbuf, hwrite, Option.bind_eq_bind, Option.bind_some,
        Session.onRecv_of_recvCall hcall]
      rfl

/-- The window posted after three bytes of a header. -/
theorem roomy_run_part : ∃ st t handed,
    Runs (complete 65537) Legit (connect Session.fresh none) [] st ∧
      recvCall 65537 st ⟨[5, 0, 2], none⟩ = some (some t, handed) ∧ t.Roomy := by
  have calls : (recvCall 65537 (connect Session.fresh none) ⟨[5, 0, 2], none⟩).map
      (fun r => r.1.isSome) = some true := by decide +kernel
  have legit : Legit (connect Session.fresh none) ⟨[5, 0, 2], none⟩ :=
    ⟨⟨0, 65536⟩, by decide +kernel, by decide, by decide⟩
  have run : Runs (complete 65537) Legit (connect Session.fresh none) [] (connect Session.fresh none) :=
    .refl
  obtain ⟨-, hcalls⟩ := roomy_run ⟨rfl, rfl, rfl⟩ (by decide) run
  obtain ⟨call, handed, hcall, hroomy⟩ := hcalls _ legit
  rw [hcall, Option.map_some, Option.some.injEq] at calls
  obtain ⟨t, rfl⟩ := Option.isSome_iff_exists.mp calls
  exact ⟨_, t, handed, run, hcall, (hroomy t rfl).1⟩

end Receiver

end IocpServer
