import IocpServer.Pool.Stale
import IocpServer.Server.Base

/-!
# Server — Local

An instruction about a slot takes a step of that slot and leaves the others alone.

* `perform_local`: the instructions about a slot, one by one.
-/

namespace IocpServer

/-- What an instruction about a slot starts besides: the loop of `PostAccept`, its roll-back, or the
sends of `Broadcast`. -/
def Instr.spawns (v : Seat) (o : Outcome) : Instr → List Instr
  | .give _ => if v.entry = none then [.rollback] else []
  | .post _ (.accept _) | .countDown _ | .push _ => [.load]
  | .execute t => if t.kind = .broadcast then o.handles.map fun handle => .lookup handle .send else []
  | _ => []

/-- `pendingAccepts_` after an instruction about a slot. -/
def Instr.pending (p : Nat) : Instr → Nat
  | .countDown _ => sub64 p 1
  | _ => p

/-- The tasks posted by an instruction. -/
def Instr.posts (v : Seat) (o : Outcome) : Instr → List Task
  | .onRecv w => o.tasks.map fun kind => ⟨w, v.conn.handle, kind⟩
  | _ => []

namespace Engine

variable {ι : Type} {N kMaxAccept : Nat} {s s' : Engine ι N}

/-- The slot `w`. -/
def view (s : Engine ι N) (w : Nat) : Seat where
  cell := s.set.cells w
  count := s.refCount w
  entry := s.sessionPtrs w
  conn := s.sessions w
  life := s.life w
  acquired := s.acquired w
  pushed := s.pushed w

/-! ### Pointers -/

/-- The reference count of the slot `w` becomes `c`. -/
def count (s : Engine ι N) (w c : Nat) : Engine ι N := { s with refCount := upd s.refCount w c }

theorem count_self (s : Engine ι N) (w : Nat) : s.count w (s.refCount w) = s := by
  rw [count, upd, Function.update_eq_self]

theorem addRef_eq {g w : Nat} (hg : slotIndex g = w) (hw : w < N) :
    s.addRef g = some (s.count w (u64 (s.refCount w + 1))) := by
  simp only [addRef, hg, rd_of_lt hw, wr_of_lt hw, Option.bind_eq_bind, Option.bind_some]
  rw [Option.pure_def, count]

theorem releaseRef_eq {g w : Nat} (hg : slotIndex g = w) (hw : w < N) :
    s.releaseRef g =
      some (s.count w ((s.view w).freed (some g)), (s.view w).last (some g)) := by
  simp only [releaseRef, hg, rd_of_lt hw, wr_of_lt hw, Option.bind_eq_bind, Option.bind_some]
  rw [Option.pure_def, count, Seat.freed, Seat.last, Option.elim_some, Option.elim_some, view]

theorem copyPtr_eq {p : Option Nat} {w : Nat} (hp : ∀ g, p = some g → slotIndex g = w)
    (hw : w < N) : s.copyPtr p = some (s.count w ((s.view w).shared p)) := by
  cases p with
  | none =>
    rw [Seat.shared, Option.elim_none]
    exact congrArg some (s.count_self w).symm
  | some g =>
    rw [Seat.shared, Option.elim_some]
    exact addRef_eq (hp g rfl) hw

theorem releasePtr_eq {p : Option Nat} {w : Nat} (hp : ∀ g, p = some g → slotIndex g = w)
    (hw : w < N) :
    s.releasePtr p = some (s.count w ((s.view w).freed p), (s.view w).last p) := by
  cases p with
  | none =>
    rw [Seat.freed, Seat.last, Option.elim_none, Option.elim_none]
    exact congrArg (fun t => some (t, [])) (s.count_self w).symm
  | some g => exact releaseRef_eq (hp g rfl) hw

theorem resetOv_eq {x : Ov} {w : Nat}
    (hp : ∀ g, ((s.sessions w).ov x).sessionPtr = some g → slotIndex g = w) (hw : w < N) :
    s.resetOv w x =
      some ((s.count w ((s.view w).freed ((s.sessions w).ov x).sessionPtr)).putConn w
          ((s.sessions w).setPtr x none),
        (s.view w).last ((s.sessions w).ov x).sessionPtr) := by
  simp only [resetOv, releasePtr_eq hp hw, Option.bind_eq_bind, Option.bind_some]
  rw [Option.pure_def, putIo, Conn.setPtr, count]

section Views

variable {w x : Nat}

@[simp] theorem view_count (s : Engine ι N) (w c : Nat) :
    (s.count w c).view w = { s.view w with count := c } := by
  simp only [view, count, upd_same]

@[simp] theorem view_putConn (s : Engine ι N) (w : Nat) (c : Conn) :
    (s.putConn w c).view w = { s.view w with conn := c } := by
  simp only [view, putConn, upd_same]

@[simp] theorem view_record (s : Engine ι N) (w : Nat) (f : Life → Life) :
    (s.record w f).view w = { s.view w with life := f (s.life w) } := by
  simp only [view, record, upd_same]

theorem view_count_other (hx : x ≠ w) (s : Engine ι N) (c : Nat) :
    (s.count w c).view x = s.view x := by
  simp only [view, count, upd_other hx]

theorem view_putConn_other (hx : x ≠ w) (s : Engine ι N) (c : Conn) :
    (s.putConn w c).view x = s.view x := by
  simp only [view, putConn, upd_other hx]

theorem view_record_other (hx : x ≠ w) (s : Engine ι N) (f : Life → Life) :
    (s.record w f).view x = s.view x := by
  simp only [view, record, upd_other hx]

end Views

/-- An instruction about the slot `w` has been performed, and `l` is in its place. -/
structure Acts (s s' : Engine ι N) (w : Nat) (i : Instr) (o : Outcome) (l : List Instr) : Prop where
  seat : ∃ is, SeatStep w (s.view w) (.run i o) [i] is (s'.view w) ∧ l = is ++ i.spawns (s.view w) o
  other : ∀ x ≠ w, s'.view x = s.view x
  rep : s'.set.Rep
  pending : s'.pendingAccepts = i.pending s.pendingAccepts
  tasks : s'.tasks = s.tasks ++ i.posts (s.view w) o
  code : s'.code = s.code

variable {w : Nat} {i : Instr} {o : Outcome} {l : List Instr} {C : Multiset Instr}

/-- An instruction that starts nothing besides. -/
structure Silent (v : Seat) (o : Outcome) (i : Instr) : Prop where
  spawns : i.spawns v o = []
  pending : ∀ p, i.pending p = p
  posts : i.posts v o = []

/-- How `Acts` is shown for an instruction that starts nothing. -/
theorem Acts.of {is : List Instr} {v : Seat} (hs : SeatStep w (s.view w) (.run i o) [i] is v)
    (hv : s'.view w = v) (hother : ∀ x ≠ w, s'.view x = s.view x) (hr : s'.set.Rep)
    (hq : Silent (s.view w) o i) (hp : s'.pendingAccepts = s.pendingAccepts)
    (ht : s'.tasks = s.tasks) (hc : s'.code = s.code) : Acts s s' w i o is where
  seat := ⟨is, hv ▸ hs, by rw [hq.spawns, List.append_nil]⟩
  other := hother
  rep := hr
  pending := hp.trans (hq.pending _).symm
  tasks := by rw [hq.posts, List.append_nil, ht]
  code := hc

/-- Nothing happens to the slot. -/
theorem Acts.refl (hs : SeatStep w (s.view w) (.run i o) [i] l (s.view w)) (hr : s.set.Rep)
    (hq : Silent (s.view w) o i) : Acts s s w i o l :=
  .of hs rfl (fun _ _ => rfl) hr hq rfl rfl rfl

/-- The session changes, and nothing else. -/
theorem Acts.conn {c : Conn} (hs : SeatStep w (s.view w) (.run i o) [i] l { s.view w with conn := c })
    (hr : s.set.Rep) (hq : Silent (s.view w) o i) : Acts s (s.putConn w c) w i o l :=
  .of hs (view_putConn s w c) (fun _ hx => view_putConn_other hx s c) hr hq rfl rfl rfl

/-- The count changes, and nothing else. -/
theorem Acts.count {c : Nat} (hs : SeatStep w (s.view w) (.run i o) [i] l { s.view w with count := c })
    (hr : s.set.Rep) (hq : Silent (s.view w) o i) : Acts s (s.count w c) w i o l :=
  .of hs (view_count s w c) (fun _ hx => view_count_other hx s c) hr hq rfl rfl rfl

/-- The count and the session change. -/
theorem Acts.both {c : Nat} {d : Conn}
    (hs : SeatStep w (s.view w) (.run i o) [i] l { s.view w with conn := d, count := c })
    (hr : s.set.Rep) (hq : Silent (s.view w) o i) :
    Acts s ((s.count w c).putConn w d) w i o l := by
  refine .of hs ?_ (fun x hx => ?_) hr hq rfl rfl rfl
  · rw [view_putConn, view_count]
  · rw [view_putConn_other hx, view_count_other hx]

section Local

/-- The pointers of a slot are to it. -/
theorem slotIndex_of (hN : N < 2 ^ 32) (hr : s.set.Rep) (hw : w < N) {g : Nat}
    (hg : g = (s.view w).handle w) : slotIndex g = w :=
  hg ▸ hr.slotIndex_handle hN hw

theorem slotIndex_invalid (hN : N < 2 ^ 32) : ¬ slotIndex kInvalidHandle < N := by
  have hidx : slotIndex kInvalidHandle = 2 ^ 32 - 1 := by decide
  omega

theorem isValid_of {set : SparseSet N SessionState.kCnt.toNat} {g : Nat} (hi : slotIndex g = w)
    (hw : w < N) (hg : slotGeneration g = (set.cells w).generation) : set.isValid g = true := by
  rw [SparseSet.isValid, hi, Bool.and_eq_true, decide_eq_true_eq, beq_iff_eq]
  exact ⟨hw, hg.symm⟩

theorem isValid_handle (hN : N < 2 ^ 32) (hr : s.set.Rep) (hw : w < N) {g : Nat}
    (hg : g = (s.view w).handle w) : s.set.isValid g = true := by
  subst hg
  exact isValid_of (hr.slotIndex_handle hN hw) hw (hr.slotGeneration_handle hN hw)

theorem perform_setListener (hr : s.set.Rep) {g : Nat} (hg : slotIndex g = w)
    (h : s.perform kMaxAccept o (.setListener g) = some (s', l)) :
    s.Acts s' w (.setListener g) o l := by
  simp only [perform, hg] at h
  cases h
  exact .conn .setListener hr ⟨rfl, fun _ => rfl, rfl⟩

theorem perform_construct (hr : s.set.Rep) (hw : w < N) {g : Nat} (hg : slotIndex g = w)
    (h : s.perform kMaxAccept o (.construct g) = some (s', l)) :
    s.Acts s' w (.construct g) o l := by
  simp only [perform, addRef_eq hg hw, Option.bind_eq_bind, Option.bind_some] at h
  cases h
  exact .count .construct hr ⟨rfl, fun _ => rfl, rfl⟩

theorem perform_give (hN : N < 2 ^ 32) (hr : s.set.Rep) (hw : w < N) (hb : (s.view w).Base w C)
    (h : s.perform kMaxAccept o (.give w) = some (s', l)) : s.Acts s' w (.give w) o l := by
  simp only [perform, rd_of_lt hw, Option.bind_eq_bind, Option.bind_some] at h
  cases he : (s.view w).entry with
  | none =>
    rw [show s.sessionPtrs w = none from he] at h
    cases h
    exact ⟨⟨[], .giveNone he, by rw [List.nil_append]; exact (if_pos he).symm⟩, fun _ _ => rfl, hr,
      rfl, (List.append_nil _).symm, rfl⟩
  | some g =>
    have hg := hb.entry_eq g he
    have hv : (s.count w (u64 (s.refCount w + 1))).set.isValid g = true :=
      isValid_handle hN hr hw hg
    have hi := slotIndex_of hN hr hw hg
    rw [show s.sessionPtrs w = some g from he] at h
    simp only [addRef_eq hi hw, Option.bind_some, hi, if_pos hv] at h
    cases h
    have hne : (s.view w).entry ≠ none := he ▸ Option.some_ne_none g
    exact .count (.give he) hr ⟨if_neg hne, fun _ => rfl, rfl⟩

theorem perform_assign (hr : s.set.Rep) (hw : w < N) {p : Purpose} {session : Option Nat}
    (hp : ∀ x g, ((s.sessions w).ov x).sessionPtr = some g → slotIndex g = w)
    (h : s.perform kMaxAccept o (.assign w p session) = some (s', l)) :
    s.Acts s' w (.assign w p session) o l := by
  simp only [perform, releasePtr_eq (hp p.ov) hw, Option.bind_eq_bind, Option.bind_some] at h
  cases h
  exact .both .assign hr ⟨rfl, fun _ => rfl, rfl⟩

theorem perform_failed (hr : s.set.Rep) (hw : w < N) {x : Ov} {g : Nat} (hg : slotIndex g = w)
    (hp : ∀ x g, ((s.sessions w).ov x).sessionPtr = some g → slotIndex g = w)
    (h : s.perform kMaxAccept o (.failed w x g) = some (s', l)) :
    s.Acts s' w (.failed w x g) o l := by
  simp only [perform, hg, resetOv_eq (hp x) hw, Option.bind_eq_bind, Option.bind_some] at h
  cases h
  exact .both .failed hr ⟨rfl, fun _ => rfl, rfl⟩

@[simp] theorem putConn_sessions (s : Engine ι N) (w : Nat) (c : Conn) :
    (s.putConn w c).sessions w = c := by
  simp only [putConn, upd_same]

@[simp] theorem putConn_putConn (s : Engine ι N) (w : Nat) (c d : Conn) :
    (s.putConn w c).putConn w d = s.putConn w d := by
  simp only [putConn, upd, Function.update_idem]

theorem initOv_none {x : Ov} (hx : ((s.sessions w).ov x).sessionPtr = none) :
    s.initOv w x = some (s.putConn w (((s.sessions w).setPtr x none).setType x .kNone), []) := by
  simp only [initOv, resetOv, hx, releasePtr, Option.bind_eq_bind, Option.bind_some,
    Option.pure_def, putIo, Conn.setPtr, Conn.setType, putConn_sessions, putConn_putConn]

theorem perform_post_accept (hr : s.set.Rep) {g : Nat}
    (h : s.perform kMaxAccept o (.post w (.accept g)) = some (s', l)) :
    s.Acts s' w (.post w (.accept g)) o l := by
  have hdead : ¬ (BOOL o.ok = SOCKET_ERROR ∧ ¬ o.pending) := by
    rintro ⟨e, -⟩
    cases hb : o.ok <;> rw [hb] at e <;> cases e
  simp only [perform, if_neg hdead] at h
  cases h
  split
  · rename_i ho
    exact ⟨⟨_, by rw [view_putConn]; exact .acceptPosted ho, rfl⟩,
      fun x hx => view_putConn_other hx _ _, hr, rfl, (List.append_nil _).symm, rfl⟩
  · rename_i ho
    exact ⟨⟨_, .acceptFailed ho, rfl⟩, fun _ _ => rfl, hr, rfl, (List.append_nil _).symm, rfl⟩

theorem perform_post_disconnect (hr : s.set.Rep) 
    (h : s.perform kMaxAccept o (.post w .disconnect) = some (s', l)) :
    s.Acts s' w (.post w .disconnect) o l := by
  simp only [perform] at h
  cases h
  split
  · rename_i ho
    exact .conn (.disconnectPosted ho) hr ⟨rfl, fun _ => rfl, rfl⟩
  · rename_i ho
    exact .refl (.disconnectFailed ho) hr ⟨rfl, fun _ => rfl, rfl⟩

theorem perform_post (hr : s.set.Rep) (hw : w < N) {p : Purpose} (hk : p.ioType = .kRecv ∨ p.ioType = .kSend)
    (hp : ∀ x g, ((s.sessions w).ov x).sessionPtr = some g → slotIndex g = w)
    (h : s.perform kMaxAccept o (.post w p) = some (s', l)) :
    s.Acts s' w (.post w p) o l := by
  have hq : Silent (s.view w) o (.post w p) := by
    cases p with
    | accept g => simp at hk
    | _ => exact ⟨rfl, fun _ => rfl, rfl⟩
  have h' : (if o.ok = true then
        if (s.sessions w).link = .connected then
          some (s.putConn w (((s.sessions w).queue p.ov).unlock p.ov), p.after w true)
        else none
      else (s.resetOv w p.ov).bind fun r =>
          some (r.1.putConn w { r.1.sessions w with
            sendCs := if p.ov = .send then false else (s.sessions w).sendCs }, r.2 ++ p.after w false)) =
      some (s', l) := by
    cases p with
    | accept g => simp at hk
    | disconnect => simp at hk
    | _ => exact h
  split at h'
  · rename_i ho
    split at h'
    · rename_i hc
      cases h'
      exact .conn (.posted hk ho hc) hr hq
    · cases h'
  · rename_i ho
    simp only [resetOv_eq (hp _) hw, Option.bind_some] at h'
    cases h'
    rw [putConn_sessions, putConn_putConn]
    exact .both (.notPosted hk (by simpa using ho)) hr hq

theorem perform_init (hr : s.set.Rep) (hw : w < N) {g : Nat} (hg : slotIndex g = w)
    (hp : ∀ x, ((s.sessions w).ov x).sessionPtr = none)
    (h : s.perform kMaxAccept o (.init g) = some (s', l)) :
    s.Acts s' w (.init g) o l := by
  simp only [perform, hg, Option.bind_eq_bind] at h
  rw [initOv_none (hp .recv), Option.bind_some, initOv_none (by simp [hp]), Option.bind_some,
    initOv_none (by simp [hp]), Option.bind_some, wr_of_lt (by exact hw), Option.bind_some] at h
  cases h
  refine .of .init ?_ (fun x hx => ?_) hr ⟨rfl, fun _ => rfl, rfl⟩ rfl rfl rfl
  · simp only [view, putConn, upd_same, Conn.reset_ov]
    rfl
  · simp only [view, putConn, upd_other hx]

theorem perform_enter (hr : s.set.Rep) (hw : w < N) {g : Nat} (hg : slotIndex g = w)
    (he : s.sessionPtrs w = none)
    (h : s.perform kMaxAccept o (.enter g) = some (s', l)) :
    s.Acts s' w (.enter g) o l := by
  have he' : (s.putConn w { s.sessions w with handle := g }).sessionPtrs w = none := he
  simp only [perform, hg, rd_of_lt hw, wr_of_lt hw, Option.bind_eq_bind, Option.bind_some, he',
    releasePtr] at h
  cases h
  refine .of (.enter he) ?_ (fun x hx => ?_) hr ⟨rfl, fun _ => rfl, rfl⟩ rfl rfl rfl
  · simp only [view, record, putConn, upd_same]
  · simp only [view, record, putConn, upd_other hx]

theorem perform_complete (hr : s.set.Rep) (hw : w < N) {x : Ov} {ok zero : Bool}
    (hp : ∀ x g, ((s.sessions w).ov x).sessionPtr = some g → slotIndex g = w)
    (h : s.perform kMaxAccept o (.complete w x ok zero) = some (s', l)) :
    s.Acts s' w (.complete w x ok zero) o l := by
  simp only [perform, Option.bind_eq_bind] at h
  obtain ⟨g, hg, h⟩ := Option.bind_eq_some_iff.mp h
  rw [addRef_eq (hp x g hg) hw, Option.bind_some] at h
  cases h
  cases ok with
  | true => exact .count (.complete hg) hr ⟨rfl, fun _ => rfl, rfl⟩
  | false => exact .count (.completeError hg) hr ⟨rfl, fun _ => rfl, rfl⟩

theorem perform_countDown (hr : s.set.Rep) {g : Nat} (hg : slotIndex g = w)
    (h : s.perform kMaxAccept o (.countDown g) = some (s', l)) :
    s.Acts s' w (.countDown g) o l := by
  simp only [perform, hg] at h
  split at h
  · rename_i hl
    cases h
    refine ⟨⟨[], ?_, rfl⟩, fun x _ => ?_, hr, ?_, (List.append_nil _).symm, rfl⟩
    · simp only [view]
      exact .countDown hl
    · simp only [view]
    · simp only [Instr.pending]
  · cases h

theorem perform_handleError (hr : s.set.Rep) (hw : w < N) {x : Ov}
    (hp : ∀ x g, ((s.sessions w).ov x).sessionPtr = some g → slotIndex g = w)
    (h : s.perform kMaxAccept o (.handleError w x) = some (s', l)) :
    s.Acts s' w (.handleError w x) o l := by
  simp only [perform, Option.bind_eq_bind] at h
  obtain ⟨g, hg, h⟩ := Option.bind_eq_some_iff.mp h
  rw [addRef_eq (hp x g hg) hw, Option.bind_some, hp x g hg] at h
  split at h
  · rename_i ht
    cases h
    exact .count (.handleDisconnectError hg ht) hr ⟨rfl, fun _ => rfl, rfl⟩
  · rename_i ht
    cases h
    exact .count (.handleError hg ht) hr ⟨rfl, fun _ => rfl, rfl⟩

theorem perform_dispatch (hr : s.set.Rep) (hw : w < N) {x : Ov} {zero : Bool}
    (hp : ∀ x g, ((s.sessions w).ov x).sessionPtr = some g → slotIndex g = w)
    (h : s.perform kMaxAccept o (.dispatch w x zero) = some (s', l)) :
    s.Acts s' w (.dispatch w x zero) o l := by
  simp only [perform, Option.bind_eq_bind] at h
  obtain ⟨g, hg, h⟩ := Option.bind_eq_some_iff.mp h
  rw [addRef_eq (hp x g hg) hw, Option.bind_some] at h
  cases h
  exact .count (.dispatch hg) hr ⟨rfl, fun _ => rfl, rfl⟩

theorem perform_dispatched (hr : s.set.Rep) (hw : w < N) {x : Ov} {g : Nat} {zero : Bool}
    (hg : slotIndex g = w)
    (hp : ∀ x g, ((s.sessions w).ov x).sessionPtr = some g → slotIndex g = w)
    (h : s.perform kMaxAccept o (.dispatched w x g zero) = some (s', l)) :
    s.Acts s' w (.dispatched w x g zero) o l := by
  simp only [perform, hg, resetOv_eq (hp x) hw, Option.bind_eq_bind, Option.bind_some,
    putConn_sessions, Conn.setPtr_type] at h
  obtain ⟨i, hi, h⟩ : ∃ i, Handler w zero ((s.sessions w).ov x).ioType i ∧ some
      ((s.count w ((s.view w).freed ((s.sessions w).ov x).sessionPtr)).putConn w
        ((s.sessions w).setPtr x none), (s.view w).last ((s.sessions w).ov x).sessionPtr ++ [i]) =
      some (s', l) := by
    split at h
    · exact ⟨_, by rename_i e; rw [e]; exact .accept, h⟩
    · exact ⟨_, by rename_i e; rw [e]; exact .disconnect, h⟩
    · rename_i e
      rw [e]
      cases zero with
      | true => exact ⟨_, .recvZero, h⟩
      | false => exact ⟨_, .recv, h⟩
    · rename_i e
      rw [e]
      cases zero with
      | true => exact ⟨_, .sendZero, h⟩
      | false => exact ⟨_, .send, h⟩
    · exact ⟨_, by rename_i e; rw [e]; exact .unknown, h⟩
  cases h
  exact .both (.dispatched hi) hr ⟨rfl, fun _ => rfl, rfl⟩

theorem perform_handleAccept (hr : s.set.Rep)
    (h : s.perform kMaxAccept o (.handleAccept w) = some (s', l)) :
    s.Acts s' w (.handleAccept w) o l := by
  simp only [perform] at h
  split at h
  · rename_i hl
    cases h
    cases ho : o.ok with
    | true => exact .refl (.handleAccept hl ho) hr ⟨rfl, fun _ => rfl, rfl⟩
    | false => exact .refl (.notAccepted hl ho) hr ⟨rfl, fun _ => rfl, rfl⟩
  · cases h

theorem perform_sendPacket (hr : s.set.Rep) {p : Purpose}
    (h : s.perform kMaxAccept o (.sendPacket w p) = some (s', l)) :
    s.Acts s' w (.sendPacket w p) o l := by
  simp only [perform] at h
  split at h
  · cases h
  · rename_i hfree
    have hfree : (s.sessions w).sendCs = false := by simpa using hfree
    split at h
    · rename_i ho
      cases h
      exact .refl (.sendFull hfree (by simpa using ho)) hr ⟨rfl, fun _ => rfl, rfl⟩
    · rename_i ho
      have ho : o.ok = true := by simpa using ho
      split at h
      · rename_i hs
        cases h
        exact .refl (.sendBusy hfree ho hs) hr ⟨rfl, fun _ => rfl, rfl⟩
      · rename_i hs
        cases h
        have hs : (s.sessions w).isSending = false := by simpa using hs
        exact .conn (.sendIdle hfree ho hs) hr ⟨rfl, fun _ => rfl, rfl⟩

theorem perform_onSend (hr : s.set.Rep)
    (h : s.perform kMaxAccept o (.onSend w) = some (s', l)) :
    s.Acts s' w (.onSend w) o l := by
  simp only [perform] at h
  split at h
  · cases h
  · rename_i hc
    obtain ⟨hfree, hs⟩ : (s.sessions w).sendCs = false ∧ (s.sessions w).isSending = true := by
      simpa using hc
    split at h
    · rename_i ho
      cases h
      exact .conn (.sent hfree hs ho) hr ⟨rfl, fun _ => rfl, rfl⟩
    · rename_i ho
      cases h
      exact .conn (.sentPart hfree hs (by simpa using ho)) hr ⟨rfl, fun _ => rfl, rfl⟩

theorem perform_onRecv (hr : s.set.Rep)
    (h : s.perform kMaxAccept o (.onRecv w) = some (s', l)) :
    s.Acts s' w (.onRecv w) o l := by
  simp only [perform] at h
  cases h
  cases ho : o.ok with
  | true => exact ⟨⟨_, .onRecv ho, rfl⟩, fun _ _ => rfl, hr, rfl, rfl, rfl⟩
  | false => exact ⟨⟨_, .received ho, rfl⟩, fun _ _ => rfl, hr, rfl, rfl, rfl⟩

theorem perform_drop (hr : s.set.Rep) (hw : w < N) {g : Nat} (hg : slotIndex g = w)
    (h : s.perform kMaxAccept o (.drop g) = some (s', l)) : s.Acts s' w (.drop g) o l := by
  simp only [perform, releaseRef_eq hg hw] at h
  cases h
  exact .count .drop hr ⟨rfl, fun _ => rfl, rfl⟩

theorem perform_setAccountId (hr : s.set.Rep) {handle : Nat}
    (h : s.perform kMaxAccept o (.setAccountId w handle) = some (s', l)) :
    s.Acts s' w (.setAccountId w handle) o l := by
  simp only [perform, Option.bind_eq_bind] at h
  obtain ⟨p, -, h⟩ := Option.bind_eq_some_iff.mp h
  obtain ⟨-, -, h⟩ := Option.bind_eq_some_iff.mp h
  cases h
  exact .refl .setAccountId hr ⟨rfl, fun _ => rfl, rfl⟩

theorem perform_execute (hr : s.set.Rep) {t : Task} (ht : t.slot = w)
    (h : s.perform kMaxAccept o (.execute t) = some (s', l)) :
    s.Acts s' w (.execute t) o l := by
  subst ht
  simp only [perform] at h
  cases h
  refine ⟨⟨_, .execute, ?_⟩, fun _ _ => rfl, hr, rfl, (List.append_nil _).symm, rfl⟩
  cases hk : t.kind <;> simp [Instr.spawns, hk, TaskKind.body]

/-- The slot of a session's own handle. -/
theorem ownIndex (hN : N < 2 ^ 32) (hb : (s.view w).Base w C)
    (hlt : slotIndex (s.sessions w).handle < N) : slotIndex (s.sessions w).handle = w := by
  rcases hb.handle_index with e | e
  · rw [show (s.sessions w).handle = kInvalidHandle from e] at hlt
    exact absurd hlt (slotIndex_invalid hN)
  · exact e

theorem getState_own (hN : N < 2 ^ 32) (hb : (s.view w).Base w C) {k : Nat}
    (h : s.set.getState (s.sessions w).handle = some k) : k = (s.view w).cell.state := by
  rw [SparseSet.getState, rd] at h
  split at h
  · rename_i hlt
    rw [ownIndex hN hb hlt] at h
    cases h
    rfl
  · cases h

theorem moveToState_own (hN : N < 2 ^ 32) (hr : s.set.Rep) (hb : (s.view w).Base w C) {k : Nat}
    (hk : k < SessionState.kCnt.toNat) {set : SparseSet N SessionState.kCnt.toNat}
    (h : s.set.moveToState (s.sessions w).handle k = some set) :
    set.Rep ∧ set.cells = upd s.set.cells w ((s.set.cells w).move k) := by
  rcases Nat.lt_or_ge (slotIndex (s.sessions w).handle) N with hi | hi
  · obtain ⟨t, ht, hrep, hcells⟩ := SparseSet.moveToState_spec hr hN hi hk
    rw [ht] at h
    cases h
    rw [ownIndex hN hb hi] at hcells
    exact ⟨hrep, hcells⟩
  · rw [SparseSet.moveToState_outside hi hk] at h
    cases h

theorem perform_connect (hN : N < 2 ^ 32) (hr : s.set.Rep) (hb : (s.view w).Base w C) {k : Bool}
    (h : s.perform kMaxAccept o (.connect w k) = some (s', l)) :
    s.Acts s' w (.connect w k) o l := by
  simp only [perform, Option.bind_eq_bind] at h
  split at h
  · cases h
  · rename_i hfree
    have hfree : (s.sessions w).connectCs = false := by simpa using hfree
    obtain ⟨st, hst, h⟩ := Option.bind_eq_some_iff.mp h
    have hst := getState_own hN hb hst
    split at h
    · rename_i he
      cases h
      exact .conn (.connect hfree (hst.symm.trans he)) hr ⟨rfl, fun _ => rfl, rfl⟩
    · rename_i he
      cases h
      cases k with
      | true => exact .refl (.connectLate hfree (hst ▸ he)) hr ⟨rfl, fun _ => rfl, rfl⟩
      | false => exact .refl (.connectLate hfree (hst ▸ he)) hr ⟨rfl, fun _ => rfl, rfl⟩

theorem perform_connectSession (hN : N < 2 ^ 32) (hr : s.set.Rep) (hb : (s.view w).Base w C)
    {k : Bool} (h : s.perform kMaxAccept o (.connectSession w k) = some (s', l)) :
    s.Acts s' w (.connectSession w k) o l := by
  simp only [perform, Option.bind_eq_bind] at h
  obtain ⟨set, hset, h⟩ := Option.bind_eq_some_iff.mp h
  obtain ⟨hrep, hcells⟩ := moveToState_own hN hr hb (by decide) hset
  cases h
  refine .of .connectSession ?_ (fun x hx => ?_) hrep ⟨rfl, fun _ => rfl, rfl⟩ rfl rfl rfl
  · simp only [view, record, putConn, hcells, upd_same]
    rfl
  · simp only [view, record, putConn, hcells, upd_other hx]

theorem perform_disconnect (hN : N < 2 ^ 32) (hr : s.set.Rep) (hb : (s.view w).Base w C)
    (h : s.perform kMaxAccept o (.disconnect w) = some (s', l)) :
    s.Acts s' w (.disconnect w) o l := by
  simp only [perform, Option.bind_eq_bind] at h
  split at h
  · cases h
  · rename_i hfree
    have hfree : (s.sessions w).connectCs = false := by simpa using hfree
    obtain ⟨st, hst, h⟩ := Option.bind_eq_some_iff.mp h
    have hst := getState_own hN hb hst
    subst hst
    split at h
    · rename_i he
      cases h
      exact .conn (.disconnect hfree he) hr ⟨rfl, fun _ => rfl, rfl⟩
    · rename_i he
      cases h
      exact .refl (.disconnectLate hfree he) hr ⟨rfl, fun _ => rfl, rfl⟩

theorem perform_setState (hN : N < 2 ^ 32) (hr : s.set.Rep) (hb : (s.view w).Base w C)
    (h : s.perform kMaxAccept o (.setState w) = some (s', l)) :
    s.Acts s' w (.setState w) o l := by
  simp only [perform, Option.bind_eq_bind] at h
  obtain ⟨set, hset, h⟩ := Option.bind_eq_some_iff.mp h
  obtain ⟨hrep, hcells⟩ := moveToState_own hN hr hb (by decide) hset
  cases h
  refine .of .setState ?_ (fun x hx => ?_) hrep ⟨rfl, fun _ => rfl, rfl⟩ rfl rfl rfl
  · simp only [view, putConn, hcells, upd_same]
    rfl
  · simp only [view, putConn, hcells, upd_other hx]

theorem perform_push (hN : N < 2 ^ 32) (hr : s.set.Rep) (hw : w < N) {g : Nat}
    (hg : slotIndex g = w) (h : s.perform kMaxAccept o (.push g) = some (s', l)) :
    s.Acts s' w (.push g) o l := by
  simp only [perform, Option.bind_eq_bind, hg] at h
  obtain ⟨set, hset, h⟩ := Option.bind_eq_some_iff.mp h
  obtain ⟨t, ht, hrep, hcells⟩ := SparseSet.push_spec hr hN (by decide) (hg.trans_lt hw)
  rw [ht] at hset
  cases hset
  rw [hg] at hcells
  cases h
  refine ⟨⟨[], ?_, rfl⟩, fun x hx => ?_, hrep, rfl, (List.append_nil _).symm, rfl⟩
  · simp only [view, hcells, upd_same]
    exact .push
  · simp only [view, hcells, upd_other hx]

theorem perform_reset (hN : N < 2 ^ 32) (hr : s.set.Rep) (hb : (s.view w).Base w C)
    (hp : ∀ g, s.sessionPtrs w = some g → slotIndex g = w)
    (h : s.perform kMaxAccept o (.reset w) = some (s', l)) :
    s.Acts s' w (.reset w) o l := by
  simp only [perform, Option.bind_eq_bind] at h
  rcases Nat.lt_or_ge (slotIndex (s.sessions w).handle) N with hi | hi
  · have hw := ownIndex hN hb hi
    rw [hw] at h hi
    rw [rd_of_lt hi, Option.bind_some, releasePtr_eq hp hi, Option.bind_some,
      wr_of_lt hi, Option.bind_some] at h
    cases h
    refine .of .reset ?_ (fun x hx => ?_) hr ⟨rfl, fun _ => rfl, rfl⟩ rfl rfl rfl
    · simp only [view, record, count, upd_same]
    · simp only [view, record, count, upd_other hx]
  · rw [rd, if_neg hi.not_gt] at h
    cases h

theorem getSession_eq {g : Nat} (hg : slotIndex g = w) (hw : w < N)
    (hp : ∀ g, s.sessionPtrs w = some g → slotIndex g = w) :
    s.getSession g =
      some (s.count w ((s.view w).shared (s.sessionPtrs w)), s.sessionPtrs w) := by
  simp only [getSession, hg, rd_of_lt hw, copyPtr_eq hp hw, Option.bind_eq_bind, Option.bind_some,
    Option.pure_def]

theorem perform_register (hN : N < 2 ^ 32) (hr : s.set.Rep) (hb : (s.view w).Base w C) {p : Purpose}
    (hp : ∀ g, s.sessionPtrs w = some g → slotIndex g = w)
    (h : s.perform kMaxAccept o (.register w p) = some (s', l)) :
    s.Acts s' w (.register w p) o l := by
  simp only [perform, Option.bind_eq_bind] at h
  split at h
  · rename_i hc
    obtain ⟨-, hk, ho⟩ := hc
    cases h
    exact .refl (.overflow hk (by simpa using ho)) hr ⟨rfl, fun _ => rfl, rfl⟩
  · rcases Nat.lt_or_ge (slotIndex (s.sessions w).handle) N with hi | hi
    · have hw := ownIndex hN hb hi
      rw [hw] at hi
      rw [getSession_eq hw hi (by exact hp), Option.bind_some] at h
      by_cases hd : p = .disconnect
      · subst hd
        rw [if_pos rfl] at h
        cases h
        refine .of .registerDisconnect ?_ (fun x hx => ?_) hr ⟨rfl, fun _ => rfl, rfl⟩ rfl rfl rfl
        · rw [view_record, view_count, putIo, view_putConn]
          rfl
        · rw [view_record_other hx, view_count_other hx, putIo, view_putConn_other hx]
      · rw [if_neg hd] at h
        cases h
        refine .of (.register hd) ?_ (fun x hx => ?_) hr
          ⟨rfl, fun _ => rfl, rfl⟩ rfl rfl rfl
        · rw [view_count, putIo, view_putConn]
          rfl
        · rw [view_count_other hx, putIo, view_putConn_other hx]
    · rw [getSession, rd, if_neg hi.not_gt] at h
      cases h

/-- **An instruction about a slot is a step of that slot.** -/
theorem perform_local (hN : N < 2 ^ 32) (hr : s.set.Rep) (hw : w < N) (hi : i.slot = some w)
    (hb : (s.view w).Base w C) (hC : i ∈ C)
    (h : s.perform kMaxAccept o i = some (s', l)) : s.Acts s' w i o l := by
  have hn := hb.names i hC
  have hp : ∀ x g, ((s.sessions w).ov x).sessionPtr = some g → slotIndex g = w :=
    fun x g hg => slotIndex_of hN hr hw (hb.ptr_eq x g hg)
  have he : ∀ g, s.sessionPtrs w = some g → slotIndex g = w :=
    fun g hg => slotIndex_of hN hr hw (hb.entry_eq g hg)
  have hcr : 0 < num Instr.creates C → refs (s.sessionPtrs w) = 0 ∧ ptrs (s.sessions w).ov = 0 :=
    fun hc => ⟨(hb.alone hc).1, (hb.alone hc).2.1⟩
  have hidx : ∀ g, some (slotIndex g) = some w → slotIndex g = w := fun _ e => Option.some.inj e
  cases i with
  | load | cas | rollback | acquire | lookup => cases hi
  | setListener g => exact perform_setListener hr (hidx g hi) h
  | init g =>
    refine perform_init hr hw (hidx g hi) (fun x => ?_) h
    have := (s.sessions w).ptr_le_ptrs x
    exact refs_eq_zero.mp (by have := (hcr (num_pos hC rfl)).2; omega)
  | construct g => exact perform_construct hr hw (hidx g hi) h
  | enter g =>
    exact perform_enter hr hw (hidx g hi) (refs_eq_zero.mp (hcr (num_pos hC rfl)).1) h
  | give k =>
    cases hi
    exact perform_give hN hr hw hb h
  | register k p =>
    cases hi
    exact perform_register hN hr hb he h
  | assign k p session =>
    cases hi
    exact perform_assign hr hw hp h
  | post k p =>
    cases hi
    cases p with
    | accept g => exact perform_post_accept hr h
    | disconnect => exact perform_post_disconnect hr h
    | firstRecv | nextRecv => exact perform_post hr hw (.inl rfl) hp h
    | welcome | plain | nextSend => exact perform_post hr hw (.inr rfl) hp h
  | complete k x ok zero =>
    cases hi
    exact perform_complete hr hw hp h
  | countDown g => exact perform_countDown hr (hidx g hi) h
  | handleError k x =>
    cases hi
    exact perform_handleError hr hw hp h
  | failed k x g =>
    cases hi
    exact perform_failed hr hw (slotIndex_of hN hr hw hn.1) hp h
  | dispatch k x zero =>
    cases hi
    exact perform_dispatch hr hw hp h
  | dispatched k x g zero =>
    cases hi
    exact perform_dispatched hr hw (slotIndex_of hN hr hw hn) hp h
  | handleAccept k =>
    cases hi
    exact perform_handleAccept hr h
  | connect k accepted =>
    cases hi
    exact perform_connect hN hr hb h
  | connectSession k accepted =>
    cases hi
    exact perform_connectSession hN hr hb h
  | sendPacket k p =>
    cases hi
    exact perform_sendPacket hr h
  | onSend k =>
    cases hi
    exact perform_onSend hr h
  | onRecv k =>
    cases hi
    exact perform_onRecv hr h
  | disconnect k =>
    cases hi
    exact perform_disconnect hN hr hb h
  | setState k =>
    cases hi
    exact perform_setState hN hr hb h
  | reset k =>
    cases hi
    exact perform_reset hN hr hb he h
  | drop g => exact perform_drop hr hw (hidx g hi) h
  | push g => exact perform_push hN hr hw (hidx g hi) h
  | execute t => exact perform_execute hr (Option.some.inj hi) h
  | account k =>
    cases hi
    cases h
    exact .refl .account hr ⟨rfl, fun _ => rfl, rfl⟩
  | accountEnd k =>
    cases hi
    cases h
    exact .refl .accountEnd hr ⟨rfl, fun _ => rfl, rfl⟩
  | logIn k =>
    cases hi
    cases h
    exact .refl .logIn hr ⟨rfl, fun _ => rfl, rfl⟩
  | logOut k =>
    cases hi
    cases h
    exact .refl .logOut hr ⟨rfl, fun _ => rfl, rfl⟩
  | setAccountId k handle =>
    cases hi
    exact perform_setAccountId hr h
  | taskEnd k =>
    cases hi
    cases h
    exact .refl .taskEnd hr ⟨rfl, fun _ => rfl, rfl⟩

/-- `Pop` takes an idle slot, or there is none. -/
theorem perform_acquire (hN : N < 2 ^ 32) (hr : s.set.Rep)
    (h : s.perform kMaxAccept o .acquire = some (s', l)) :
    s'.pendingAccepts = s.pendingAccepts ∧ s'.tasks = s.tasks ∧ s'.code = s.code ∧ s'.set.Rep ∧
    ((∃ w < N, SeatStep w (s.view w) .pop [] l (s'.view w) ∧ ∀ x ≠ w, s'.view x = s.view x) ∨
      (∀ w < N, (s.view w).cell.state ≠ 0) ∧ (∀ x, s'.view x = s.view x) ∧ l = [.rollback]) := by
  simp only [perform, Option.bind_eq_bind] at h
  rcases SparseSet.pop_spec hr hN (b := SessionState.kPending.toNat) (by decide) with
    ⟨w, set, hw, h0, hp, hrep, hcells⟩ | ⟨hp, hall⟩
  · have hv : set.isValid (s.set.handle w) = true := by
      refine isValid_of (hr.slotIndex_handle hN hw) hw ?_
      rw [hr.slotGeneration_handle hN hw, hcells, upd_same, SparseSet.Cell.move_generation]
    rw [hp, Option.bind_some] at h
    simp only [hv, if_true, hr.slotIndex_handle hN hw] at h
    cases h
    refine ⟨rfl, rfl, rfl, hrep, .inl ⟨w, hw, ?_, fun x hx => ?_⟩⟩
    · simp only [view, record, hcells, upd_same]
      exact .pop h0
    · simp only [view, record, hcells, upd_other hx]
  · rw [hp, Option.bind_some] at h
    simp only [SparseSet.isValid_invalid hN] at h
    cases h
    exact ⟨rfl, rfl, rfl, hr, .inr ⟨hall, fun _ => rfl, rfl⟩⟩

/-- A lookup copies the pointer of the slot, if there is one. -/
theorem perform_lookup (hN : N < 2 ^ 32) (hr : s.set.Rep) {handle : Nat} {call : Call}
    (hb : ∀ w < N, ∀ g, (s.view w).entry = some g → g = (s.view w).handle w)
    (h : s.perform kMaxAccept o (.lookup handle call) = some (s', l)) :
    s'.pendingAccepts = s.pendingAccepts ∧ s'.tasks = s.tasks ∧ s'.code = s.code ∧ s'.set.Rep ∧
    slotIndex handle < N ∧
    (SeatStep (slotIndex handle) (s.view (slotIndex handle)) (.lookup call) [] l
        (s'.view (slotIndex handle)) ∧ (∀ x ≠ slotIndex handle, s'.view x = s.view x) ∨
      (s.view (slotIndex handle)).entry = none ∧ (∀ x, s'.view x = s.view x) ∧ l = []) := by
  simp only [perform, Option.bind_eq_bind] at h
  rcases Nat.lt_or_ge (slotIndex handle) N with hw | hw
  · have hp : ∀ g, s.sessionPtrs (slotIndex handle) = some g → slotIndex g = slotIndex handle :=
      fun g hg => slotIndex_of hN hr hw (hb _ hw g hg)
    rw [getSession_eq rfl hw hp, Option.bind_some] at h
    cases he : (s.view (slotIndex handle)).entry with
    | none =>
      have hs : s.count (slotIndex handle) ((s.view (slotIndex handle)).shared none) = s := by
        rw [Seat.shared, Option.elim_none]
        exact s.count_self _
      rw [show s.sessionPtrs (slotIndex handle) = none from he, hs] at h
      cases h
      exact ⟨rfl, rfl, rfl, hr, hw, .inr ⟨rfl, fun _ => rfl, rfl⟩⟩
    | some g =>
      have hg := hb _ hw g he
      rw [show s.sessionPtrs (slotIndex handle) = some g from he] at h
      have hv : (s.count (slotIndex handle) ((s.view (slotIndex handle)).shared (some g))).set.isValid g
          = true := isValid_handle hN hr hw hg
      have hi := slotIndex_of hN hr hw hg
      simp only [hv, hi, if_true] at h
      obtain ⟨rfl, rfl⟩ : s.count (slotIndex handle)
            ((s.view (slotIndex handle)).shared (some g)) = s' ∧
          call.body (slotIndex handle) ++ [.drop g] = l := by
        cases call <;> (cases h; exact ⟨rfl, rfl⟩)
      refine ⟨rfl, rfl, rfl, hr, hw, .inl ⟨?_, fun x hx => view_count_other hx _ _⟩⟩
      rw [view_count, Seat.shared, Option.elim_some]
      exact .lookup he
  · rw [getSession, rd, if_neg hw.not_gt] at h
    cases h

/-- `fetch_sub` on `pendingAccepts_`, and nothing else. -/
theorem perform_rollback (h : s.perform kMaxAccept o .rollback = some (s', l)) :
    s'.pendingAccepts = sub64 s.pendingAccepts 1 ∧ s'.tasks = s.tasks ∧ s'.code = s.code ∧
      s'.set.Rep = s.set.Rep ∧ (∀ x, s'.view x = s.view x) ∧ l = [] := by
  simp only [perform, Option.some.injEq, Prod.mk.injEq] at h
  obtain ⟨rfl, rfl⟩ := h
  refine ⟨?_, ?_, ?_, ?_, fun x => ?_, rfl⟩ <;> simp only [view]

end Local

end Engine

end IocpServer
