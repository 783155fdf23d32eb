import IocpServer.Packet.Effects
import IocpServer.Server.Delivery

/-!
# Server — Malformed

What becomes of a connection whose stream has come to a bad header or to a packet without a handler.
The first is met by `OnRecv`, which fails and has the session disconnected; the second is met by
`Execute`, which logs it and returns.

`Execute` moves no session to another state in any case (`execute_effect`, `Effect.sessionPool`).

* `malformed_ends`: in every run in which every packet executed has a handler, a bad header ends the
  connection.
-/

namespace IocpServer

namespace Delivery

open PacketHandler

variable {κ ι : Type} [DecidableEq κ] [DecidableEq ι]

/-- A malformed packet ends the connection `k`.  `header`: its stream has come to a bad header, and
no thread handles a receive of it any more.  `id`: a packet without a handler has been executed, and
that call has returned. -/
structure Ended (s : Delivery κ ι) (k : κ) (c : Incarnation) : Prop where
  header : BadHeader (Records.parse kHeaderSize headerSize c.stream).2 →
    (∀ i, key (s.threads i) ≠ some k) →
    c.state = .kDisconnecting ∧ c.handed = (Records.parse kHeaderSize headerSize c.stream).1 ∧
      (∀ rest, (Records.parse kHeaderSize headerSize (c.stream ++ rest)).1 = c.handed) ∧
      lane k s.executed <+: c.handed
  id : ∀ packet ∈ lane k s.executed, ¬ HasHandler packet →
    (∀ j, s.workers j ≠ .executing (k, packet)) →
    c.state = .kDisconnecting ∧ ∃ before, lane k s.executed = before ++ [packet] ∧
      before ++ [packet] <+: (Records.parse kHeaderSize headerSize c.stream).1

/-- If the step calls `Execute`, then on a packet with a handler. -/
def Handled (s : Delivery κ ι) : Event κ ι → Prop
  | .call j => ∀ task ∈ (s.workers j).held, HasHandler task.2
  | _ => True

instance (s : Delivery κ ι) : DecidablePred s.Handled
  | .call _ => inferInstanceAs (Decidable (∀ _ ∈ WorkerPhase.held _, _))
  | .connect .. | .arrive .. | .fail .. | .pass _ | .repost .. | .disconnect _ | .close _ | .pop _
  | .finish _ | .shutdown => inferInstanceAs (Decidable True)

variable {s s' : Delivery κ ι} {es : List (Event κ ι)} {k : κ} {c : Incarnation}

/-- What a step executes is the packet a worker holds. -/
theorem executed_step {e : Event κ ι} (hs : s.step e = some s') {task : κ × List Byte}
    (hmem : task ∈ s'.executed) : task ∈ s.executed ∨ ∃ j, e = .call j ∧ task ∈ (s.workers j).held := by
  have rest : ¬ Moves e → task ∈ s.executed := fun he => (step_rest he hs).2.2 ▸ hmem
  cases e with
  | pass i =>
    simp only [step] at hs
    split at hs
    case h_2 => cases hs
    obtain ⟨c, -, hs⟩ := Option.bind_eq_some_iff.mp hs
    obtain ⟨p, -, hs⟩ := Option.bind_eq_some_iff.mp hs
    split at hs <;> cases hs <;> exact .inl hmem
  | pop j =>
    simp only [step] at hs
    split at hs
    case h_2 => cases hs
    split at hs
    · cases hs
      exact .inl hmem
    · split at hs <;> cases hs
      exact .inl hmem
  | call j =>
    simp only [step] at hs
    split at hs
    case h_2 => cases hs
    rename_i task' hj
    cases hs
    rcases List.mem_append.mp hmem with hmem | hmem
    · exact .inl hmem
    · right
      refine ⟨j, rfl, ?_⟩
      rw [hj]
      exact hmem
  | finish j =>
    simp only [step] at hs
    split at hs
    case h_2 => cases hs
    cases hs
    exact .inl hmem
  | _ => exact .inl (rest fun he => he)

/-- As long as only packets with a handler are executed, all that have been executed have one. -/
theorem run_handled (r : Runs step (fun s e => Legit s e ∧ Handled s e) start es s) :
    ∀ task ∈ s.executed, HasHandler task.2 := by
  refine r.invariant (I := fun s => ∀ task ∈ s.executed, HasHandler task.2) (fun _ h => nomatch h) ?_
  rintro a e b ha ⟨-, hok⟩ hb task hmem
  rcases executed_step hb hmem with hmem | ⟨j, rfl, hmem⟩
  · exact ha task hmem
  · exact hok task hmem

omit [DecidableEq ι] in
/-- **A bad header ends the connection**, when no thread handles a receive of it any more. -/
theorem Inv.bad_header (h : s.Inv) (hc : s.incarnations k = some c)
    (hbad : BadHeader (Records.parse kHeaderSize headerSize c.stream).2)
    (hthreads : ∀ i, key (s.threads i) ≠ some k) :
    c.state = .kDisconnecting ∧ c.handed = (Records.parse kHeaderSize headerSize c.stream).1 ∧
      (∀ rest, (Records.parse kHeaderSize headerSize (c.stream ++ rest)).1 = c.handed) ∧
      lane k s.executed <+: c.handed := by
  have hexecuted := h.executed_prefix hc
  have hk := h.receiving.kept k c hc
  have hframed : Framed c.stream c.handed c.session.recvOv.window := by
    refine ⟨hk.stream, hk.records, hk.maximal fun i hi => hthreads i ?_⟩
    rw [hi]
    rfl
  have hparse := hframed.eq_parse readsHeader (by decide)
  rw [← hparse] at hbad ⊢
  refine ⟨?_, rfl, fun rest => ?_, hexecuted⟩
  · rcases hk.bad hbad with ⟨i, hi | hi⟩ | hs
    · exact absurd (by rw [hi]; rfl) (hthreads i)
    · exact absurd (by rw [hi]; rfl) (hthreads i)
    · exact hs
  · rw [← (hframed.stop readsHeader hbad rest).eq_parse readsHeader (by decide)]

/-- **Malformed packets end the connection** in every run that executes no packet without a
handler. -/
theorem malformed_ends (r : Runs step (fun s e => Legit s e ∧ Handled s e) start es s)
    (hc : s.incarnations k = some c) : s.Ended k c where
  header := (run_inv (r.mono fun _ _ h => h.1)).bad_header hc
  id packet hmem hne := absurd (run_handled r (k, packet) (mem_lane.mp hmem)) hne

/-- A packet and then a header of size 3. -/
theorem malformed_ends_short : ∃ (s : Delivery Unit Unit) (es : _) (c : _),
    Runs step (fun s e => Legit s e ∧ Handled s e) start es s ∧ s.incarnations () = some c ∧
      c.stream = [4, 0, 1, 0, 3, 0, 1, 0] ∧ s.Ended () c := by
  have trace : ((execIf (fun s e => decide (Legit s e ∧ Handled s e)) step (start : Delivery Unit Unit)
      [.connect () .fresh none true, .arrive () () 0 [4, 0, 1, 0, 3, 0, 1, 0], .pass (), .pass (),
        .pop theWorker, .disconnect (), .call theWorker, .finish theWorker]).bind fun s =>
        (s.incarnations ()).map Incarnation.stream) = some [4, 0, 1, 0, 3, 0, 1, 0] := by
    decide +kernel
  obtain ⟨s, hs, hstream⟩ := Option.bind_eq_some_iff.mp trace
  obtain ⟨c, hc, hstream⟩ := Option.map_eq_some_iff.mp hstream
  have r : Runs step (fun s e => Legit s e ∧ Handled s e) start _ s :=
    .of_execIf (I := fun _ => True) (fun _ _ _ h => of_decide_eq_true h) (fun _ _ _ _ _ _ => trivial)
      trivial hs
  exact ⟨s, _, c, r, hc, hstream, malformed_ends r hc⟩

/-- The packet `04 00 FF FF` has no handler; `Execute` drops it, the session stays connected, and
the packet behind it is executed as well. -/
theorem malformed_survives : ∃ (s : Delivery Unit Unit) (es : _) (c : _),
    Runs step Legit start es s ∧ s.incarnations () = some c ∧
      lane () s.executed = [[4, 0, 255, 255], [4, 0, 5, 0]] ∧ c.state = .kConnected ∧
      (∀ queued q w self, execute queued q w self [4, 0, 255, 255] = some (q, w)) ∧
      ¬ s.Ended () c := by
  have trace : ((execIf (fun s e => decide (Legit s e)) step (start : Delivery Unit Unit)
      [.connect () .fresh none true, .arrive () () 0 [4, 0, 255, 255, 4, 0, 5, 0], .pass (), .pass (),
        .pass (), .repost () none true, .pop theWorker, .call theWorker, .finish theWorker,
        .pop theWorker, .call theWorker]).bind fun s => (s.incarnations ()).map fun c =>
          (lane () s.executed, c.state, s.workers theWorker)) =
      some ([[4, 0, 255, 255], [4, 0, 5, 0]], .kConnected, .executing ((), [4, 0, 5, 0])) := by
    decide +kernel
  obtain ⟨s, hs, hout⟩ := Option.bind_eq_some_iff.mp trace
  obtain ⟨c, hc, hout⟩ := Option.map_eq_some_iff.mp hout
  obtain ⟨hlane, hout⟩ := Prod.mk.inj hout
  obtain ⟨hstate, hworker⟩ := Prod.mk.inj hout
  have hne : ¬ HasHandler [4, 0, 255, 255] := by decide
  have r : Runs step Legit start _ s :=
    .of_execIf (I := fun _ => True) (fun _ _ _ h => of_decide_eq_true h) (fun _ _ _ _ _ _ => trivial)
      trivial hs
  refine ⟨s, _, c, r, hc, hlane, hstate, fun queued q w self => execute_unhandled hne, fun h => ?_⟩
  obtain ⟨hd, -⟩ := h.id [4, 0, 255, 255] (by rw [hlane]; exact List.mem_cons_self) hne (fun j e => by
    rw [Subsingleton.elim j theWorker, hworker] at e
    cases e)
  rw [hstate] at hd
  cases hd

end Delivery

end IocpServer
