import IocpServer.Pool.Mover

/-!
# Pool — Listing

`GetIndicesInState` takes no lock, so its reads fall between the stores of a thread inside `cs_`.
`Listing` is a set with at most one thread inside `cs_` and one call of `GetIndicesInState`, in any
interleaving of their loads and stores.

* `Apart`: while the call runs no call inside `cs_` takes a slot out of the state listed, or past it.
* `listing_faithful`: in such a run no read is out of range, the call ends, and it returns every
  handle that was in the state when it began, once, and else only handles on their way there.
* `lock_order`: between the calls inside `cs_` the set is what these calls lead to as single steps,
  in the order in which they took the lock.
* `listing_skips`, `listing_repeats`: a session that disconnects, or a slot that is released, while
  the call runs.
-/

namespace IocpServer.SparseSet

variable {N stateCount : Nat}

/-- Where a call of `GetIndicesInState` is: at one of the two loads for `reserve`, at the load of the
first place, or at the condition, `dense_[i]` or `GetHandle` of the loop. -/
inductive Stage where
  | last
  | first (last : Nat)
  | start
  | test (i : Nat)
  | load (i : Nat)
  | name (i who : Nat)
  | done
  deriving DecidableEq, Repr

/-- A call of `GetIndicesInState(state)`: `result`, the argument of `reserve`, how many loads it has
made, and the handles in the state when it began and, with those on their way there, when it
ended. -/
structure Call where
  state : Nat
  stage : Stage
  result : List Nat
  reserved : Nat
  reads : Nat
  began : List Nat
  ended : List Nat
  deriving DecidableEq, Repr

/-- The next load of the call. -/
def Call.read (c : Call) (s : SparseSet N stateCount) : Option Call :=
  match c.stage with
  | .last => do
      let hi ← rd (stateCount + 1) s.cursor (c.state + 1)
      return { c with stage := .first hi, reads := c.reads + 1 }
  | .first hi => do
      let lo ← rd (stateCount + 1) s.cursor c.state
      return { c with stage := .start, reserved := sub32 hi lo, reads := c.reads + 1 }
  | .start => do
      let i ← rd (stateCount + 1) s.cursor c.state
      return { c with stage := .test i, reads := c.reads + 1 }
  | .test i => do
      let hi ← rd (stateCount + 1) s.cursor (c.state + 1)
      return { c with stage := if i < hi then .load i else .done, reads := c.reads + 1 }
  | .load i => do
      let who ← rd N s.dense i
      return { c with stage := .name i who, reads := c.reads + 1 }
  | .name i who => do
      let handle ← s.getHandle who
      return { c with
        stage := .test (i + 1), result := c.result ++ [handle], reads := c.reads + 1 }
  | .done => none

/-- The handles of the slots in a state. -/
def handlesIn (s : SparseSet N stateCount) (b : Nat) : List Nat :=
  ((List.range N).filter fun w => (s.cells w).state == b).map s.handle

/-- The handle of the slot that the thread inside `cs_` brings to state `b`. -/
def arriving (s : SparseSet N stateCount) (b : Nat) : Option Mover → List Nat
  | some m => if m.target = b then [s.handle m.who] else []
  | none => []

/-- The set, the thread inside `cs_` and the call. -/
structure Listing (N stateCount : Nat) where
  set : SparseSet N stateCount
  mover : Option Mover
  call : Option Call

/-! ### What has been listed -/

/-- The handles at the places `f, …, i − 1`. -/
def listed (s : SparseSet N stateCount) (f i : Nat) : List Nat :=
  (List.range' f (i - f)).map fun j => s.handle (s.dense j)

theorem mem_listed {s : SparseSet N stateCount} {f i h : Nat} :
    h ∈ s.listed f i ↔ ∃ j, f ≤ j ∧ j < i ∧ s.handle (s.dense j) = h := by
  simp only [listed, List.mem_map, List.mem_range'_1]
  constructor
  · rintro ⟨j, ⟨hj, hj'⟩, e⟩
    exact ⟨j, hj, by omega, e⟩
  · rintro ⟨j, hj, hj', e⟩
    exact ⟨j, ⟨hj, by omega⟩, e⟩

theorem listed_self (s : SparseSet N stateCount) (f : Nat) : s.listed f f = [] := by
  rw [listed, Nat.sub_self]
  rfl

theorem listed_succ (s : SparseSet N stateCount) {f i : Nat} (h : f ≤ i) :
    s.listed f (i + 1) = s.listed f i ++ [s.handle (s.dense i)] := by
  have e : i + 1 - f = i - f + 1 := by omega
  rw [listed, e, List.range'_1_concat, List.map_append, List.map_singleton, Nat.add_sub_cancel' h]
  rfl

theorem Grows.listed {b f i : Nat} {s t : SparseSet N stateCount} (h : Grows b s t)
    (hf : s.cursor b ≤ f) (hi : i ≤ s.cursor (b + 1)) : t.listed f i = s.listed f i := by
  refine List.map_congr_left fun j hj => ?_
  rw [List.mem_range'_1] at hj
  have hs : s.Spans b j := ⟨hf.trans hj.1, by omega⟩
  rw [h.dense j hs, h.handle j hs]

/-- In a set with the invariant no handle is listed twice. -/
theorem Rep.nodup_listed {s : SparseSet N stateCount} (h : Rep s) (hN : N < 2 ^ 32) {f i : Nat}
    (hi : i ≤ N) : (s.listed f i).Nodup := by
  refine List.Nodup.map_on ?_ List.nodup_range'
  intro j hj k hk e
  rw [List.mem_range'_1] at hj hk
  have hj' : j < N := by omega
  have hk' : k < N := by omega
  have e' := congrArg slotIndex e
  rw [h.slotIndex_handle hN (h.paired.dense_lt j hj'), h.slotIndex_handle hN (h.paired.dense_lt k hk')]
    at e'
  rw [← h.paired.pos_dense j hj', e', h.paired.pos_dense k hk']

theorem mem_handlesIn {s : SparseSet N stateCount} {b h : Nat} :
    h ∈ s.handlesIn b ↔ ∃ w < N, (s.cells w).state = b ∧ s.handle w = h := by
  simp only [handlesIn, List.mem_map, List.mem_filter, List.mem_range, beq_iff_eq, and_assoc]

/-! ### The set under the lock -/

/-- What holds of the set and of the thread inside `cs_`. -/
def Sound (s : SparseSet N stateCount) : Option Mover → Prop
  | none => Rep s
  | some m => Holding s m

/-- A bucket that the thread inside `cs_` spares holds the slots in its state, and grows at most
before the set has the invariant again, by the slot that arrives. -/
theorem Sound.settled {s : SparseSet N stateCount} {mover : Option Mover} (h : Sound s mover)
    {b : Nat} (hb : b < stateCount) (hsp : ∀ m ∈ mover, m.Spares b) :
    s.Full b ∧ ∃ t, Rep t ∧ Grows b s t ∧
      ∀ w, (t.cells w).state = b → (s.cells w).state = b ∨ s.handle w ∈ s.arriving b mover := by
  cases mover with
  | none => exact ⟨Rep.full h hb, s, h, .refl b s, fun _ hw => .inl hw⟩
  | some m =>
    have hset := Holding.settling h b hb (hsp m rfl)
    obtain ⟨t, ht, hrep, hbet⟩ := h.settles
    refine ⟨hset.full, t, hrep, hset.grows ht, fun w hw => ?_⟩
    by_cases e : w = m.who
    · by_cases ha : m.target = b
      · exact .inr (by simp [arriving, ha, e])
      · rw [← e, hw] at hbet
        have hsp' := hsp m rfl
        simp only [Mover.Spares, Between] at hsp' hbet
        omega
    · exact .inl ((exec_state_eq e h.moves ht).symm.trans hw)

/-! ### The call -/

/-- The loads that may be left. -/
def Stage.left (N : Nat) : Stage → Nat
  | .last => 3 * N + 4
  | .first _ => 3 * N + 3
  | .start => 3 * N + 2
  | .test i => 3 * (N - i) + 1
  | .load i => 3 * (N - i)
  | .name i _ => 3 * (N - i) - 1
  | .done => 0

/-- The call has listed the places from its first, at most `lo`, up to `i`. -/
structure Call.Upto (c : Call) (s : SparseSet N stateCount) (lo i : Nat) : Prop where
  reserved : c.reserved ≤ N
  result : ∃ f, s.cursor c.state ≤ f ∧ f ≤ lo ∧ f ≤ i ∧ i ≤ s.cursor (c.state + 1) ∧
    c.result = s.listed f i

/-- What the call has found so far. -/
def Call.At (c : Call) (s : SparseSet N stateCount) (lo : Nat) : Prop :=
  match c.stage with
  | .last => c.result = []
  | .first x => c.result = [] ∧ lo ≤ x ∧ x ≤ N
  | .start => c.result = [] ∧ c.reserved ≤ N
  | .test i => c.Upto s lo i
  | .load i => c.Upto s lo i ∧ i < s.cursor (c.state + 1)
  | .name i who => c.Upto s lo i ∧ i < s.cursor (c.state + 1) ∧ who = s.dense i
  | .done => False

/-- **What holds while the call runs**: the handles in the state when it began are at the places
`lo, …, hi − 1`, which stay in the bucket. -/
structure Reading (s : SparseSet N stateCount) (c : Call) (lo hi : Nat) : Prop where
  lo_le : s.cursor c.state ≤ lo
  le : lo ≤ hi
  hi_le : hi ≤ s.cursor (c.state + 1)
  began : ∀ h ∈ c.began, ∃ i, lo ≤ i ∧ i < hi ∧ s.handle (s.dense i) = h
  stage : c.At s lo
  reads : c.reads + c.stage.left N ≤ 3 * N + 4

/-- **What holds of a call that has ended.** -/
structure Call.Faithful (c : Call) (N : Nat) : Prop where
  nodup : c.result.Nodup
  all : ∀ h ∈ c.began, h ∈ c.result
  only : ∀ h ∈ c.result, h ∈ c.ended
  reserved : c.reserved ≤ N
  reads : c.reads ≤ 3 * N + 4

theorem Call.Upto.grows {c : Call} {s t : SparseSet N stateCount} {lo i : Nat}
    (h : c.Upto s lo i) (hg : Grows c.state s t) : c.Upto t lo i := by
  obtain ⟨f, hf, hlo, hfi, hi, e⟩ := h.result
  exact ⟨h.reserved, f, hg.lo.trans hf, hlo, hfi, hi.trans hg.hi, e.trans (hg.listed hf hi).symm⟩

theorem Reading.grows {c : Call} {s t : SparseSet N stateCount} {lo hi : Nat}
    (h : Reading s c lo hi) (hg : Grows c.state s t) : Reading t c lo hi := by
  have hspan : ∀ i, lo ≤ i → i < hi → s.Spans c.state i :=
    fun i h₁ h₂ => ⟨h.lo_le.trans h₁, h₂.trans_le h.hi_le⟩
  refine ⟨hg.lo.trans h.lo_le, h.le, h.hi_le.trans hg.hi, fun a ha => ?_, ?_, h.reads⟩
  · obtain ⟨i, h₁, h₂, e⟩ := h.began a ha
    refine ⟨i, h₁, h₂, ?_⟩
    rw [hg.dense i (hspan i h₁ h₂), hg.handle i (hspan i h₁ h₂)]
    exact e
  · have hst := h.stage
    rw [Call.At] at hst ⊢
    cases hc : c.stage with
    | last | first | start | done => rw [hc] at hst; exact hst
    | test i => rw [hc] at hst; exact hst.grows hg
    | load i => rw [hc] at hst; exact ⟨hst.1.grows hg, hst.2.trans_le hg.hi⟩
    | name i who =>
      rw [hc] at hst
      obtain ⟨hup, hlt, rfl⟩ := hst
      obtain ⟨f, hf, -, hfi, -⟩ := hup.result
      exact ⟨hup.grows hg, hlt.trans_le hg.hi, (hg.dense i ⟨hf.trans hfi, hlt⟩).symm⟩

/-- The call that begins. -/
theorem Full.reading {s : SparseSet N stateCount} {b : Nat} (h : s.Full b) :
    Reading s ⟨b, .last, [], 0, 0, s.handlesIn b, []⟩ (s.cursor b) (s.cursor (b + 1)) := by
  refine ⟨le_rfl, h.le, le_rfl, fun a ha => ?_, rfl, by simp [Stage.left]⟩
  obtain ⟨w, hw, hst, e⟩ := mem_handlesIn.mp ha
  obtain ⟨i, hi, hd⟩ := h.mem w hw hst
  exact ⟨i, hi.1, hi.2, by rw [hd]; exact e⟩

/-- **One load of a running call** is in range, and leaves it running or ends it. -/
theorem Reading.read {s t : SparseSet N stateCount} {c : Call} {lo hi : Nat}
    (h : Reading s c lo hi) (hN : N < 2 ^ 32) (hb : c.state < stateCount) (ht : Rep t)
    (hg : Grows c.state s t) :
    ∃ d, c.read s = some d ∧ d.state = c.state ∧ d.began = c.began ∧
      (d.stage ≠ .done → Reading s d lo hi) ∧
      (d.stage = .done → d.reads ≤ 3 * N + 4 ∧ d.Upto s lo (s.cursor (c.state + 1))) := by
  have hlast : s.cursor (c.state + 1) ≤ N := hg.hi.trans (ht.cuts.le_last (b := c.state + 1) hb)
  have hst := h.stage
  have hreads := h.reads
  have hle := h.lo_le
  have hlh := h.le
  have hhi := h.hi_le
  have k₀ : c.state < stateCount + 1 := by omega
  have k₁ : c.state + 1 < stateCount + 1 := by omega
  obtain ⟨b, stage, result, reserved, reads, began, ended⟩ := c
  cases stage with
  | last =>
    refine ⟨⟨b, .first (s.cursor (b + 1)), result, reserved, reads + 1, began, ended⟩, ?_, rfl, rfl,
      fun _ => ⟨hle, hlh, hhi, h.began, ⟨hst, hlh.trans hhi, hlast⟩, ?_⟩, fun e => by cases e⟩
    · simp only [Call.read, rd_of_lt k₁, Option.bind_eq_bind, Option.bind_some]
      rfl
    · simp only [Stage.left] at hreads ⊢
      omega
  | first x =>
    obtain ⟨hr, hx, hxN⟩ := hst
    refine ⟨⟨b, .start, result, sub32 x (s.cursor b), reads + 1, began, ended⟩, ?_, rfl, rfl,
      fun _ => ⟨hle, hlh, hhi, h.began, ⟨hr, ?_⟩, ?_⟩, fun e => by cases e⟩
    · simp only [Call.read, rd_of_lt k₀, Option.bind_eq_bind, Option.bind_some]
      rfl
    · show sub32 x (s.cursor b) ≤ N
      rw [sub32_of_le (hle.trans hx) (by omega)]
      omega
    · simp only [Stage.left] at hreads ⊢
      omega
  | start =>
    obtain ⟨hr, hres⟩ := hst
    refine ⟨⟨b, .test (s.cursor b), result, reserved, reads + 1, began, ended⟩, ?_, rfl, rfl,
      fun _ => ⟨hle, hlh, hhi, h.began, ⟨hres, s.cursor b, le_rfl, hle, le_rfl,
        hle.trans (hlh.trans hhi), ?_⟩, ?_⟩, fun e => by cases e⟩
    · simp only [Call.read, rd_of_lt k₀, Option.bind_eq_bind, Option.bind_some]
      rfl
    · exact hr.trans (s.listed_self _).symm
    · simp only [Stage.left] at hreads ⊢
      omega
  | test i =>
    have hup : Call.Upto _ s lo i := hst
    obtain ⟨f, hf, hflo, hfi, hi, e⟩ := hup.result
    by_cases hlt : i < s.cursor (b + 1)
    · refine ⟨⟨b, .load i, result, reserved, reads + 1, began, ended⟩, ?_, rfl, rfl,
        fun _ => ⟨hle, hlh, hhi, h.began, ⟨⟨hup.reserved, f, hf, hflo, hfi, hi, e⟩, hlt⟩, ?_⟩,
        fun e => by cases e⟩
      · simp only [Call.read, rd_of_lt k₁, Option.bind_eq_bind, Option.bind_some, if_pos hlt]
        rfl
      · simp only [Stage.left] at hreads ⊢
        omega
    · have hi' : s.cursor (b + 1) = i := Nat.le_antisymm (not_lt.mp hlt) hi
      refine ⟨⟨b, .done, result, reserved, reads + 1, began, ended⟩, ?_, rfl, rfl,
        fun e => absurd rfl e, fun _ => ⟨?_, ?_⟩⟩
      · simp only [Call.read, rd_of_lt k₁, Option.bind_eq_bind, Option.bind_some, if_neg hlt]
        rfl
      · simp only [Stage.left] at hreads ⊢
        omega
      · show Call.Upto _ s lo (s.cursor (b + 1))
        rw [hi']
        exact ⟨hup.reserved, f, hf, hflo, hfi, hi, e⟩
  | load i =>
    obtain ⟨hup, hlt⟩ := hst
    obtain ⟨f, hf, hflo, hfi, hi, e⟩ := hup.result
    refine ⟨⟨b, .name i (s.dense i), result, reserved, reads + 1, began, ended⟩, ?_, rfl, rfl,
      fun _ => ⟨hle, hlh, hhi, h.began, ⟨⟨hup.reserved, f, hf, hflo, hfi, hi, e⟩, hlt, rfl⟩, ?_⟩,
      fun e => by cases e⟩
    · have hiN : i < N := lt_of_lt_of_le hlt hlast
      simp only [Call.read, rd_of_lt hiN, Option.bind_eq_bind, Option.bind_some]
      rfl
    · have hiN : i < N := lt_of_lt_of_le hlt hlast
      simp only [Stage.left] at hreads ⊢
      omega
  | name i who =>
    obtain ⟨hup, hlt, rfl⟩ := hst
    obtain ⟨f, hf, hflo, hfi, hi, e⟩ := hup.result
    have hiN : i < N := lt_of_lt_of_le hlt hlast
    have hspan : s.Spans b i := ⟨hf.trans hfi, hlt⟩
    have hw : s.dense i < N := by
      rw [← hg.dense i hspan]
      exact ht.paired.dense_lt i hiN
    refine ⟨⟨b, .test (i + 1), result ++ [s.handle (s.dense i)], reserved, reads + 1, began, ended⟩,
      ?_, rfl, rfl, fun _ => ⟨hle, hlh, hhi, h.began, ⟨hup.reserved, f, hf, hflo, by omega, hlt, ?_⟩,
        ?_⟩, fun e => by cases e⟩
    · simp only [Call.read, getHandle_eq s hw, Option.bind_eq_bind, Option.bind_some]
      rfl
    · rw [s.listed_succ hfi, ← e]
    · simp only [Stage.left] at hreads ⊢
      omega
  | done => exact hst.elim

/-- What the call returns when it ends. -/
theorem Reading.faithful {s t : SparseSet N stateCount} {c : Call} {lo hi : Nat}
    {m : Option Mover} (h : Reading s c lo hi) (hN : N < 2 ^ 32) (hb : c.state < stateCount)
    (ht : Rep t) (hg : Grows c.state s t)
    (harr : ∀ w, (t.cells w).state = c.state →
      (s.cells w).state = c.state ∨ s.handle w ∈ s.arriving c.state m)
    {d : Call} (hd : d.state = c.state) (hbegan : d.began = c.began) (hreads : d.reads ≤ 3 * N + 4)
    (hup : d.Upto s lo (s.cursor (c.state + 1)))
    (hended : d.ended = s.handlesIn c.state ++ s.arriving c.state m) : d.Faithful N := by
  have hlast : s.cursor (c.state + 1) ≤ N := hg.hi.trans (ht.cuts.le_last (b := c.state + 1) hb)
  obtain ⟨f, hf, hflo, -, hi', e⟩ := hup.result
  rw [hd] at hf hi'
  refine ⟨?_, fun a ha => ?_, fun a ha => ?_, hup.reserved, hreads⟩
  · rw [e, ← hg.listed hf le_rfl]
    exact ht.nodup_listed hN hlast
  · rw [hbegan] at ha
    obtain ⟨i, h₁, h₂, ei⟩ := h.began a ha
    rw [e, mem_listed]
    exact ⟨i, hflo.trans h₁, h₂.trans_le h.hi_le, ei⟩
  · rw [e, mem_listed] at ha
    obtain ⟨j, hj, hj', rfl⟩ := ha
    have hspan : s.Spans c.state j := ⟨hf.trans hj, hj'⟩
    have hjN : j < N := hj'.trans_le hlast
    have hst : (t.cells (s.dense j)).state = c.state := by
      rw [← hg.dense j hspan, ← ht.spans_iff hb hjN]
      exact hg.spans hspan
    have hw : s.dense j < N := by
      rw [← hg.dense j hspan]
      exact ht.paired.dense_lt j hjN
    rw [hended, List.mem_append, mem_handlesIn]
    rcases harr _ hst with hin | hin
    · exact .inl ⟨s.dense j, hw, hin, rfl⟩
    · exact .inr hin

namespace Listing

/-- What may happen next. -/
inductive Event where
  /-- A thread takes the lock. -/
  | lock (call : Inside)
  /-- The next step of the thread inside `cs_`. -/
  | advance
  /-- A call of `GetIndicesInState`. -/
  | list (state : Nat)
  /-- Its next load. -/
  | read
  deriving DecidableEq, Repr

/-- Nothing has happened. -/
def new (N stateCount : Nat) : Listing N stateCount := ⟨SparseSet.new N stateCount, none, none⟩

/-- A call runs. -/
def Running (s : Listing N stateCount) : Prop := ∃ c, s.call = some c ∧ c.stage ≠ .done

instance (s : Listing N stateCount) : Decidable s.Running :=
  match h : s.call with
  | none => .isFalse (by rintro ⟨c, hc, -⟩; rw [h] at hc; cases hc)
  | some c => decidable_of_iff (c.stage ≠ .done)
      ⟨fun hc => ⟨c, h, hc⟩, by rintro ⟨d, hd, hne⟩; rw [h] at hd; cases hd; exact hne⟩

/-- The call after a load; when it returns, with the handles in its state and on their way there. -/
def returned (s : Listing N stateCount) (c : Call) : Call :=
  if c.stage = .done then
    { c with ended := s.set.handlesIn c.state ++ s.set.arriving c.state s.mover }
  else
    c

/-- The state after an event. -/
def step (s : Listing N stateCount) : Event → Option (Listing N stateCount)
  | .lock call =>
      if s.mover = none then do
        let mover ← s.set.enter call
        return { s with mover }
      else
        none
  | .advance => do
      let (set, mover) ← s.set.advance (← s.mover)
      return { s with set, mover }
  | .list b =>
      if s.Running then
        none
      else if stateCount ≤ b then
        some { s with call := none }
      else
        some { s with call := some ⟨b, .last, [], 0, 0, s.set.handlesIn b, []⟩ }
  | .read => do
      let c ← (← s.call).read s.set
      return { s with call := some (s.returned c) }

/-- The event is of a slot below `N`. -/
def InRange (N : Nat) : Event → Prop
  | .lock call => call.op.InRange N
  | _ => True

instance : (e : Event) → Decidable (InRange N e)
  | .lock call => inferInstanceAs (Decidable (call.op.InRange N))
  | .advance | .list _ | .read => .isTrue trivial

/-- While a call runs, the thread inside `cs_` spares the state that it lists. -/
def Apart (s : Listing N stateCount) : Event → Prop
  | .lock call => ∀ c ∈ s.call, c.stage ≠ .done → ∀ m ∈ s.set.enter call, ∀ n ∈ m, n.Spares c.state
  | .list b => ∀ m ∈ s.mover, m.Spares b
  | .advance | .read => True

instance (s : Listing N stateCount) : (e : Event) → Decidable (s.Apart e)
  | .lock call => inferInstanceAs (Decidable (∀ c ∈ s.call, c.stage ≠ .done →
      ∀ m ∈ s.set.enter call, ∀ n ∈ m, n.Spares c.state))
  | .list b => inferInstanceAs (Decidable (∀ m ∈ s.mover, m.Spares b))
  | .advance | .read => .isTrue trivial

/-! ### Runs -/

/-- **The invariant.** -/
structure Inv (s : Listing N stateCount) : Prop where
  sound : Sound s.set s.mover
  lt : ∀ c ∈ s.call, c.state < stateCount
  spares : ∀ c ∈ s.call, c.stage ≠ .done → ∀ m ∈ s.mover, m.Spares c.state
  reading : ∀ c ∈ s.call, c.stage ≠ .done → ∃ lo hi, Reading s.set c lo hi
  faithful : ∀ c ∈ s.call, c.stage = .done → c.Faithful N

theorem new_inv (hN : N < 2 ^ 32) (hK : 1 ≤ stateCount) : Inv (new N stateCount) := by
  refine ⟨new_rep hN hK, ?_, ?_, ?_, ?_⟩ <;> exact fun c hc => nomatch hc

/-- A load of the call, while it runs. -/
theorem Inv.read {s : Listing N stateCount} (h : Inv s) (hN : N < 2 ^ 32) {c : Call}
    (hc : s.call = some c) (hne : c.stage ≠ .done) :
    ∃ t, s.step .read = some t ∧ Inv t := by
  obtain ⟨lo, hi, hr⟩ := h.reading c hc hne
  have hb := h.lt c hc
  obtain ⟨-, t, ht, hg, harr⟩ := h.sound.settled hb (h.spares c hc hne)
  obtain ⟨d, hd, hstate, hbegan, hrun, hend⟩ := hr.read hN hb ht hg
  refine ⟨{ s with call := some (s.returned d) }, ?_, ?_⟩
  · simp only [step, hc, hd, Option.bind_eq_bind, Option.bind_some]
    rfl
  · rw [returned]
    by_cases hdone : d.stage = .done
    · rw [if_pos hdone]
      obtain ⟨hreads, hup⟩ := hend hdone
      refine ⟨h.sound, fun e he => ?_, fun e he hne' => ?_, fun e he hne' => ?_, fun e he _ => ?_⟩
      all_goals obtain rfl := Option.some.inj he
      · exact hstate ▸ hb
      · exact absurd hdone hne'
      · exact absurd hdone hne'
      · refine hr.faithful (m := s.mover) hN hb ht hg harr hstate hbegan hreads
          ⟨hup.reserved, hup.result⟩ ?_
        show s.set.handlesIn d.state ++ s.set.arriving d.state s.mover = _
        rw [hstate]
    · rw [if_neg hdone]
      refine ⟨h.sound, fun e he => ?_, fun e he hne' => ?_, fun e he hne' => ?_,
        fun e he he' => ?_⟩
      all_goals obtain rfl := Option.some.inj he
      · exact hstate ▸ hb
      · exact hstate ▸ h.spares c hc hne
      · exact ⟨lo, hi, hrun hdone⟩
      · exact absurd he' hdone

/-- **Every event keeps the invariant.** -/
theorem Inv.step {s t : Listing N stateCount} {e : Event} (h : Inv s) (hN : N < 2 ^ 32)
    (hK : 1 ≤ stateCount) (hr : InRange N e) (ha : s.Apart e) (ht : s.step e = some t) : Inv t := by
  cases e with
  | lock call =>
    rw [Listing.step] at ht
    split at ht
    · rename_i hfree
      obtain ⟨mover, hm, ht⟩ := Option.bind_eq_some_iff.mp ht
      cases ht
      have hrep : Rep s.set := by
        have hs := h.sound
        rwa [hfree] at hs
      refine ⟨?_, h.lt, fun c hc hne => ha c hc hne mover hm, h.reading, h.faithful⟩
      rcases enter_rest hrep hN hK hr with ⟨he, -⟩ | ⟨m, he, hold, -⟩
      · rw [hm] at he
        cases he
        exact hrep
      · rw [hm] at he
        cases he
        exact hold
    · cases ht
  | advance =>
    obtain ⟨m, hm, ht⟩ := Option.bind_eq_some_iff.mp ht
    obtain ⟨p, hp, ht⟩ := Option.bind_eq_some_iff.mp ht
    cases ht
    have hold : Holding s.set m := by
      have hs := h.sound
      rwa [hm] at hs
    rcases advance_rest hN hold with ⟨he, hrep, -⟩ | ⟨u, n, he, hn, -, -, hsp⟩
    · rw [hp] at he
      cases he
      exact ⟨hrep, h.lt, fun _ _ _ _ hm' => (nomatch hm'), h.reading, h.faithful⟩
    · rw [hp] at he
      cases he
      refine ⟨hn, h.lt, fun c hc hne k hk => ?_, fun c hc hne => ?_, h.faithful⟩
      · obtain rfl := Option.some.inj hk
        exact (hsp c.state (h.lt c hc) (h.spares c hc hne m hm)).1
      · obtain ⟨lo, hi, hread⟩ := h.reading c hc hne
        exact ⟨lo, hi, hread.grows (hsp c.state (h.lt c hc) (h.spares c hc hne m hm)).2⟩
  | list b =>
    rw [Listing.step] at ht
    split at ht
    · cases ht
    · split at ht
      · cases ht
        refine ⟨h.sound, ?_, ?_, ?_, ?_⟩ <;> exact fun c hc => nomatch hc
      · rename_i hb
        cases ht
        have hb' := not_le.mp hb
        refine ⟨h.sound, fun c hc => ?_, fun c hc _ => ?_, fun c hc _ => ?_, fun c hc he => ?_⟩
        all_goals obtain rfl := Option.some.inj hc
        · exact hb'
        · exact ha
        · exact ⟨_, _, (h.sound.settled hb' ha).1.reading⟩
        · cases he
  | read =>
    obtain ⟨c, hc, ht'⟩ := Option.bind_eq_some_iff.mp ht
    obtain ⟨d, hd, -⟩ := Option.bind_eq_some_iff.mp ht'
    have hne : c.stage ≠ .done := by
      intro hdone
      rw [Call.read, hdone] at hd
      cases hd
    obtain ⟨u, hu, hinv⟩ := h.read hN hc hne
    rw [ht] at hu
    cases hu
    exact hinv

/-- **A listing without the lock**, with the thread inside `cs_` at any of its stores when it begins,
at each of its loads, and when it ends.  While no call inside `cs_` takes a slot out of the state
listed or past it, each load is in range; the call ends after at most `3 N + 4` of them; it then
returns the handle of every slot that was in the state when it began, no handle twice, and no handle
of a slot that is not in the state by then or on its way there; and it has not reserved more than `N`
places. -/
theorem listing_faithful (hN : N < 2 ^ 32) (hK : 1 ≤ stateCount) {es : List Event}
    {s : Listing N stateCount} (r : Runs step (fun s e => InRange N e ∧ s.Apart e) (new N stateCount) es s)
    {c : Call} (hc : s.call = some c) :
    if c.stage = .done then
      c.result.Nodup ∧ (∀ h ∈ c.began, h ∈ c.result) ∧ (∀ h ∈ c.result, h ∈ c.ended) ∧
        c.reserved ≤ N ∧ c.reads ≤ 3 * N + 4
    else
      c.reads < 3 * N + 4 ∧ ∃ t, s.step .read = some t := by
  have h : Inv s := r.invariant (new_inv hN hK) fun a e b ha he hs => ha.step hN hK he.1 he.2 hs
  split
  · rename_i hdone
    have hf := h.faithful c hc hdone
    exact ⟨hf.nodup, hf.all, hf.only, hf.reserved, hf.reads⟩
  · rename_i hne
    obtain ⟨lo, hi, hr⟩ := h.reading c hc hne
    obtain ⟨t, ht, -⟩ := h.read hN hc hne
    refine ⟨?_, t, ht⟩
    have hreads := hr.reads
    have hst := hr.stage
    cases hstage : c.stage with
    | done => exact absurd hstage hne
    | last | first | start | test =>
      simp only [hstage, Stage.left] at hreads
      omega
    | load i | name i =>
      have hb := h.lt c hc
      obtain ⟨-, u, hu, hg, -⟩ := h.sound.settled hb (h.spares c hc hne)
      have hlast := hg.hi.trans (hu.cuts.le_last (b := c.state + 1) hb)
      simp only [Call.At, hstage] at hst
      simp only [hstage, Stage.left] at hreads
      omega

/-- Slots `0` and `3` are connected, then slot `2` is acquired. -/
def connected : List Event :=
  [.lock (.acquire 2)] ++ List.replicate 15 .advance ++ [.lock (.acquire 2)] ++
    List.replicate 15 .advance ++ [.lock (.acquire 1)] ++ List.replicate 8 .advance

/-- Slot `2` connects while the connected ones are listed. -/
def entering : List Event :=
  connected ++ [.list 2] ++ List.replicate 3 .read ++ [.lock (.moveToState 2 2)] ++
    List.replicate 6 .advance ++ List.replicate 7 .read

theorem entering_call :
    ((execIf (fun s e => decide (InRange 4 e ∧ s.Apart e)) step (new 4 4) entering).bind
      Listing.call) = some ⟨2, .done, [3, 0], 2, 10, [0, 3], [0, 3, 2]⟩ := by
  decide +kernel

theorem listing_faithful_entering :
    ∃ s c, Runs step (fun s e => InRange 4 e ∧ s.Apart e) (new 4 4) entering s ∧
      s.call = some c ∧ c.began = [0, 3] ∧ c.result = [3, 0] ∧ c.stage = .done ∧
      if c.stage = .done then
        c.result.Nodup ∧ (∀ h ∈ c.began, h ∈ c.result) ∧ (∀ h ∈ c.result, h ∈ c.ended) ∧
          c.reserved ≤ 4 ∧ c.reads ≤ 3 * 4 + 4
      else
        c.reads < 3 * 4 + 4 ∧ ∃ t, s.step .read = some t := by
  obtain ⟨s, hs, hc⟩ := Option.bind_eq_some_iff.mp entering_call
  have r : Runs step (fun s e => InRange 4 e ∧ s.Apart e) (new 4 4) entering s :=
    Runs.of_execIf (I := fun _ => True) (fun _ _ _ h => of_decide_eq_true h)
      (fun _ _ _ _ _ _ => trivial) trivial hs
  exact ⟨s, _, r, hc, rfl, rfl, rfl, listing_faithful (by decide) (by decide) r hc⟩

/-- Slot `2` leaves the connected ones while they are listed, and the last of them takes its place,
which has been read. -/
def leaving : List Event :=
  connected ++ [.lock (.moveToState 2 2)] ++ List.replicate 8 .advance ++ [.list 2] ++
    List.replicate 6 .read ++ [.lock (.moveToState 2 3)] ++ List.replicate 8 .advance ++
    List.replicate 4 .read

/-- **A session that stays connected may be skipped** when another one disconnects meanwhile. -/
theorem listing_skips :
    ((exec step (new 4 4) leaving).bind fun s => s.call.map fun c =>
      (c.stage, c.began, c.ended, c.result)) = some (.done, [0, 2, 3], [0, 3], [2, 3]) := by
  decide +kernel

/-- Slot `2`, which is disconnecting, is released while the connected ones are listed: on its way to
state `0` it passes them, and the first of them is moved behind the others. -/
def passing : List Event :=
  connected ++ [.lock (.moveToState 2 3)] ++ List.replicate 15 .advance ++ [.list 2] ++
    List.replicate 6 .read ++ [.lock (.release 2)] ++ List.replicate 14 .advance ++
    List.replicate 7 .read

/-- **A connected session may be listed twice** when another slot is released meanwhile. -/
theorem listing_repeats :
    ((exec step (new 4 4) passing).bind fun s => s.call.map fun c =>
      (c.stage, c.began, c.ended, c.result)) = some (.done, [0, 3], [0, 3], [0, 3, 0]) := by
  decide +kernel

/-! ### The order of the lock -/

/-- The calls inside `cs_`, in the order in which they took it. -/
def calls (es : List Event) : List Op :=
  es.filterMap fun
    | .lock call => some call.op
    | _ => none

theorem calls_append (es fs : List Event) : calls (es ++ fs) = calls es ++ calls fs :=
  List.filterMap_append

/-- The set when the call inside `cs_` has returned. -/
def settled (s : Listing N stateCount) : Option (SparseSet N stateCount) :=
  match s.mover with
  | none => some s.set
  | some m => s.set.rest m

/-- The call inside `cs_` can be brought to its end. -/
theorem exec_advance (hN : N < 2 ^ 32) : ∀ (k : Nat) {s : Listing N stateCount} {m : Mover},
    s.mover = some m → Holding s.set m → s.set.weight m < k →
      ∃ j t, exec step s (List.replicate j .advance) = some t ∧ t.mover = none
  | 0, _, _, _, _, hk => by omega
  | k + 1, s, m, hm, h, hk => by
      rcases advance_rest hN h with ⟨he, -⟩ | ⟨u, n, he, hn, -, hw, -⟩
      · refine ⟨1, { s with mover := none }, ?_, rfl⟩
        simp only [List.replicate_one, exec_cons, exec_nil, step, hm, he, Option.bind_eq_bind,
          Option.bind_some]
        rfl
      · obtain ⟨j, t, ht, hfree⟩ := exec_advance hN k
          (s := { s with set := u, mover := some n }) rfl hn (hw.trans_le (Nat.le_of_lt_succ hk))
        refine ⟨j + 1, t, ?_, hfree⟩
        simp only [List.replicate_succ, exec_cons, step, hm, he, Option.bind_eq_bind,
          Option.bind_some]
        exact ht

/-- What an event does to the set that the calls lead to. -/
theorem step_settled {s t : Listing N stateCount} {e : Event} (hN : N < 2 ^ 32)
    (hK : 1 ≤ stateCount) (h : Sound s.set s.mover) (hr : InRange N e) (ht : s.step e = some t) :
    Sound t.set t.mover ∧
      t.settled = s.settled.bind fun u => exec SparseSet.step u (calls [e]) := by
  cases e with
  | lock call =>
    rw [step] at ht
    split at ht
    · rename_i hfree
      obtain ⟨mover, hm, ht⟩ := Option.bind_eq_some_iff.mp ht
      cases ht
      rw [hfree] at h
      have hs : s.settled = some s.set := by rw [settled, hfree]
      rw [hs, Option.bind_some]
      show Sound s.set mover ∧ _ = (s.set.step call.op).bind some
      rw [Option.bind_fun_some]
      rcases enter_rest h hN hK hr with ⟨he, hstep⟩ | ⟨m, he, hold, hrest⟩
      · rw [hm] at he
        cases he
        exact ⟨h, hstep.symm⟩
      · rw [hm] at he
        cases he
        exact ⟨hold, hrest⟩
    · cases ht
  | advance =>
    obtain ⟨m, hm, ht⟩ := Option.bind_eq_some_iff.mp ht
    obtain ⟨p, hp, ht⟩ := Option.bind_eq_some_iff.mp ht
    cases ht
    rw [hm] at h
    have hs : s.settled = s.set.rest m := by rw [settled, hm]
    show _ ∧ _ = s.settled.bind some
    rw [hs, Option.bind_fun_some]
    rcases advance_rest hN h with ⟨he, hrep, hrest⟩ | ⟨u, n, he, hn, hrest, -⟩
    · rw [hp] at he
      cases he
      exact ⟨hrep, hrest.symm⟩
    · rw [hp] at he
      cases he
      exact ⟨hn, hrest⟩
  | list b =>
    have hsame : t.set = s.set ∧ t.mover = s.mover := by
      rw [step] at ht
      split_ifs at ht <;> cases ht <;> exact ⟨rfl, rfl⟩
    show _ ∧ _ = s.settled.bind some
    rw [Option.bind_fun_some, settled, settled, hsame.1, hsame.2]
    exact ⟨h, rfl⟩
  | read =>
    obtain ⟨c, hc, ht⟩ := Option.bind_eq_some_iff.mp ht
    obtain ⟨d, hd, ht⟩ := Option.bind_eq_some_iff.mp ht
    cases ht
    show _ ∧ _ = s.settled.bind some
    rw [Option.bind_fun_some]
    exact ⟨h, rfl⟩

theorem run_settled (hN : N < 2 ^ 32) (hK : 1 ≤ stateCount) {es : List Event}
    {s : Listing N stateCount} (r : Runs step (fun _ e => InRange N e) (new N stateCount) es s) :
    Sound s.set s.mover ∧
      exec SparseSet.step (SparseSet.new N stateCount) (calls es) = s.settled := by
  refine r.invariant_events
    (I := fun es (s : Listing N stateCount) => Sound s.set s.mover ∧
      exec SparseSet.step (SparseSet.new N stateCount) (calls es) = s.settled)
    ⟨new_rep hN hK, rfl⟩ fun es s e t hs hr ht => ?_
  obtain ⟨hsound, hset⟩ := step_settled hN hK hs.1 hr ht
  refine ⟨hsound, ?_⟩
  rw [calls_append, exec_append, hs.2, hset]

/-- **Store by store under the lock, call by call without it.**  Whatever has been done of the call
inside `cs_`, its steps are in range and the last of them gives the lock back; and then the set is
what the calls so far lead to as single steps, in the order in which they took the lock. -/
theorem lock_order (hN : N < 2 ^ 32) (hK : 1 ≤ stateCount) {es : List Event}
    {s : Listing N stateCount} (r : Runs step (fun _ e => InRange N e) (new N stateCount) es s) :
    (s.mover = none → exec SparseSet.step (SparseSet.new N stateCount) (calls es) = some s.set) ∧
      ∃ j t, exec step s (List.replicate j .advance) = some t ∧ t.mover = none ∧
        exec SparseSet.step (SparseSet.new N stateCount) (calls es) = some t.set := by
  have hfree : ∀ {es : List Event} {t : Listing N stateCount},
      Runs step (fun _ e => InRange N e) (new N stateCount) es t → t.mover = none →
        exec SparseSet.step (SparseSet.new N stateCount) (calls es) = some t.set := by
    intro es t r' ht
    rw [(run_settled hN hK r').2, settled, ht]
  refine ⟨hfree r, ?_⟩
  obtain ⟨hsound, -⟩ := run_settled hN hK r
  cases hm : s.mover with
  | none => exact ⟨0, s, rfl, hm, hfree r hm⟩
  | some m =>
    rw [hm] at hsound
    obtain ⟨j, t, ht, hnone⟩ := exec_advance hN _ hm hsound (Nat.lt_succ_self _)
    refine ⟨j, t, ht, hnone, ?_⟩
    have r' := r.append (Runs.of_exec ht fun e he a => by
      rw [List.eq_of_mem_replicate he]
      trivial)
    have hcalls : calls (List.replicate j Event.advance) = [] := by
      rw [calls, List.filterMap_replicate_of_none rfl]
    have hset := hfree r' hnone
    rwa [calls_append, hcalls, List.append_nil] at hset

/-- Slot `2` connects while the connected ones are listed; the last store is to come. -/
theorem lock_order_entering :
    ∃ s : Listing 4 4, exec step (new 4 4) entering = some s ∧ s.mover ≠ none ∧
      (s.mover = none → exec SparseSet.step (SparseSet.new 4 4) (calls entering) = some s.set) ∧
      ∃ j t, exec step s (List.replicate j .advance) = some t ∧ t.mover = none ∧
        exec SparseSet.step (SparseSet.new 4 4) (calls entering) = some t.set := by
  have hrun : ((exec step (new 4 4) entering).map fun s => decide (s.mover ≠ none)) = some true := by
    decide +kernel
  obtain ⟨s, hs, hm⟩ := Option.map_eq_some_iff.mp hrun
  have r : Runs step (fun (_ : Listing 4 4) e => InRange 4 e) (new 4 4) entering s :=
    Runs.of_exec hs fun e he _ => by
      have hall : ∀ e ∈ entering, InRange 4 e := by decide
      exact hall e he
  exact ⟨s, hs, of_decide_eq_true hm, lock_order (by decide) (by decide) r⟩

end Listing

end IocpServer.SparseSet
