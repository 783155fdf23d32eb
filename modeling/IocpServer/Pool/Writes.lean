import IocpServer.Pool.SlotMap

/-!
# Pool — Writes

The operations of `SparseSet` one store at a time, as a thread sees them that does not take the lock.
The thread inside `cs_` is the only one that stores, so that what it loads is the same whenever it
does.

* `incrementWrites`, `decrementWrites`: the stores of `IncrementState` and `DecrementState`, which
  taken together are those functions (`incrementWrites_spec`, `decrementWrites_spec`).
* `Grows`: what the bucket of a state lists stays where it is, under the same handle.
* `Settling`: before and after each of the stores to come the bucket of a state holds every slot in
  that state, and each of them lets it grow at most.
-/

namespace IocpServer.SparseSet

variable {N stateCount : Nat}

/-- A store to `dense_`, to `cursor_`, or to a field of `sparse_`. -/
inductive Write where
  | dense (i who : Nat)
  | cursor (b i : Nat)
  | where_ (who i : Nat)
  | state (who b : Nat)
  | generation (who g : Nat)
  deriving DecidableEq, Repr

/-- The set after a store. -/
def store (s : SparseSet N stateCount) : Write → Option (SparseSet N stateCount)
  | .dense i who => do
      let dense ← wr N s.dense i who
      return { s with dense }
  | .cursor b i => do
      let cursor ← wr (stateCount + 1) s.cursor b i
      return { s with cursor }
  | .where_ who i => do
      let slot ← rd N s.sparse who
      let sparse ← wr N s.sparse who { slot with where_ := i }
      return { s with sparse }
  | .state who b => do
      let slot ← rd N s.sparse who
      let sparse ← wr N s.sparse who { slot with state := b }
      return { s with sparse }
  | .generation who g => do
      let slot ← rd N s.sparse who
      let sparse ← wr N s.sparse who { slot with generation := g }
      return { s with sparse }

/-- The stores of `swapDense`. -/
def swapWrites (s : SparseSet N stateCount) (where_ swapWith : Nat) : Option (List Write) := do
  let a ← rd N s.dense where_
  let b ← rd N s.dense swapWith
  return [.dense where_ b, .dense swapWith a, .where_ b (u32 where_), .where_ a (u32 swapWith)]

/-- The stores of `IncrementState`. -/
def incrementWrites (s : SparseSet N stateCount) (handle : Nat) : Option (List Write) := do
  let who := slotIndex handle
  let slot ← rd N s.sparse who
  if stateCount - 1 ≤ slot.state then
    return []
  else
    let nextState := slot.state + 1
    let cut ← rd (stateCount + 1) s.cursor nextState
    let swapWith := sub32 cut 1
    let writes ← s.swapWrites slot.where_ swapWith
    return writes ++ [.cursor nextState (sub32 cut 1), .state who nextState]

/-- The stores of `DecrementState`. -/
def decrementWrites (s : SparseSet N stateCount) (handle : Nat) : Option (List Write) := do
  let who := slotIndex handle
  let slot ← rd N s.sparse who
  if slot.state = 0 then
    return []
  else
    let currentState := slot.state
    let prevState := currentState - 1
    let swapWith ← rd (stateCount + 1) s.cursor currentState
    let writes ← s.swapWrites slot.where_ swapWith
    return writes ++ [.cursor currentState (u32 (swapWith + 1)), .state who prevState]

theorem swapWrites_spec {s : SparseSet N stateCount} (h : Paired N s.dense s.pos) {p q : Nat}
    (hp : p < N) (hq : q < N) :
    s.swapWrites p q = some [.dense p (s.dense q), .dense q (s.dense p),
        .where_ (s.dense q) (u32 p), .where_ (s.dense p) (u32 q)] ∧
      exec store s [.dense p (s.dense q), .dense q (s.dense p), .where_ (s.dense q) (u32 p),
        .where_ (s.dense p) (u32 q)] = s.swapDense p q := by
  have hdp : upd (upd s.dense p (s.dense q)) q (s.dense p) p = s.dense q := by
    by_cases e : p = q
    · subst e; rw [upd_same]
    · rw [upd_other e, upd_same]
  refine ⟨?_, ?_⟩
  · simp only [swapWrites, rd_of_lt hp, rd_of_lt hq, Option.bind_eq_bind, Option.bind_some]
    rfl
  · simp only [exec_cons, exec_nil, store, swapDense, rd_of_lt hp, rd_of_lt hq, wr_of_lt hp,
      wr_of_lt hq, rd_of_lt (h.dense_lt q hq), rd_of_lt (h.dense_lt p hp),
      wr_of_lt (h.dense_lt q hq), wr_of_lt (h.dense_lt p hp), Option.bind_eq_bind,
      Option.bind_some, Option.pure_def, hdp, upd_same]

/-! ### Buckets -/

/-- The places that `cursor_` gives to state `b`. -/
def Spans (s : SparseSet N stateCount) (b i : Nat) : Prop := s.cursor b ≤ i ∧ i < s.cursor (b + 1)

/-- The bucket of `b` may grow from `s` to `t`: what it lists stays where it is, under the same
handle. -/
structure Grows (b : Nat) (s t : SparseSet N stateCount) : Prop where
  lo : t.cursor b ≤ s.cursor b
  hi : s.cursor (b + 1) ≤ t.cursor (b + 1)
  dense : ∀ i, s.Spans b i → t.dense i = s.dense i
  handle : ∀ i, s.Spans b i → t.handle (s.dense i) = s.handle (s.dense i)

theorem Grows.refl (b : Nat) (s : SparseSet N stateCount) : Grows b s s :=
  ⟨le_rfl, le_rfl, fun _ _ => rfl, fun _ _ => rfl⟩

theorem Grows.spans {b i : Nat} {s t : SparseSet N stateCount} (h : Grows b s t)
    (hi : s.Spans b i) : t.Spans b i :=
  ⟨h.lo.trans hi.1, hi.2.trans_le h.hi⟩

theorem Grows.trans {b : Nat} {s t u : SparseSet N stateCount} (h : Grows b s t)
    (h' : Grows b t u) : Grows b s u where
  lo := h'.lo.trans h.lo
  hi := h.hi.trans h'.hi
  dense i hi := (h'.dense i (h.spans hi)).trans (h.dense i hi)
  handle i hi := by
    have e := h'.handle i (h.spans hi)
    rw [h.dense i hi] at e
    exact e.trans (h.handle i hi)

/-- Every slot in state `b` is in its bucket. -/
structure Full (s : SparseSet N stateCount) (b : Nat) : Prop where
  le : s.cursor b ≤ s.cursor (b + 1)
  mem : ∀ w < N, (s.cells w).state = b → ∃ i, s.Spans b i ∧ s.dense i = w

/-- The store is to no place of the bucket of `b` and to no generation of a slot in it, and moves
its cuts outwards at most. -/
def Write.Widens (s : SparseSet N stateCount) (b : Nat) : Write → Prop
  | .dense i _ => ¬ s.Spans b i
  | .cursor k i => (k = b → i ≤ s.cursor b) ∧ (k = b + 1 → s.cursor (b + 1) ≤ i)
  | .where_ _ _ | .state _ _ => True
  | .generation who _ => ∀ i, s.Spans b i → s.dense i ≠ who

/-- The store is not to `state_`. -/
def Write.Keeps : Write → Prop
  | .state _ _ => False
  | _ => True

/-- The store is to `state_` of slot `w`, if it is to any. -/
def Write.Moves (w : Nat) : Write → Prop
  | .state who _ => who = w
  | _ => True

/-- The stores to come let the bucket of `b` grow at most, and all the while every slot in state `b`
is in it. -/
def Settling (b : Nat) : SparseSet N stateCount → List Write → Prop
  | s, [] => s.Full b
  | s, x :: xs => s.Full b ∧ x.Widens s b ∧ ∀ t, s.store x = some t → Settling b t xs

theorem Settling.full {b : Nat} {s : SparseSet N stateCount} {xs : List Write}
    (h : Settling b s xs) : s.Full b := by
  cases xs with
  | nil => exact h
  | cons x xs => exact h.1

theorem Rep.spans_iff {s : SparseSet N stateCount} (h : Rep s) {b i : Nat} (hb : b < stateCount)
    (hi : i < N) : s.Spans b i ↔ (s.cells (s.dense i)).state = b := by
  rw [h.state_iff (h.paired.dense_lt i hi) hb, h.paired.pos_dense i hi, Spans]

theorem Rep.lt_of_spans {s : SparseSet N stateCount} (h : Rep s) {b i : Nat} (hb : b < stateCount)
    (hi : s.Spans b i) : i < N :=
  hi.2.trans_le (h.cuts.le_last (b := b + 1) hb)

theorem Rep.full {s : SparseSet N stateCount} (h : Rep s) {b : Nat} (hb : b < stateCount) :
    s.Full b := by
  refine ⟨h.cuts.mono b hb, fun w hw hst => ⟨s.pos w, ?_, h.paired.dense_pos w hw⟩⟩
  rw [h.spans_iff hb (h.paired.pos_lt w hw), h.paired.dense_pos w hw]
  exact hst

/-! ### One store -/

theorem rd_some {α : Type} {n i : Nat} {a : Nat → α} {x : α} (h : rd n a i = some x) :
    i < n ∧ x = a i := by
  rw [rd] at h
  split at h <;> cases h
  exact ⟨‹_›, rfl⟩

theorem wr_some {α : Type} {n i : Nat} {a f : Nat → α} {x : α} (h : wr n a i x = some f) :
    i < n ∧ f = upd a i x := by
  rw [wr] at h
  split at h <;> cases h
  exact ⟨‹_›, rfl⟩

/-- A store to a field of `sparse_`. -/
theorem patch_some {s t : SparseSet N stateCount} {who : Nat} {f : Slot → Slot}
    (h : (do let slot ← rd N s.sparse who
             let sparse ← wr N s.sparse who (f slot)
             return { s with sparse }) = some t) :
    t = { s with sparse := upd s.sparse who (f (s.sparse who)) } := by
  obtain ⟨slot, hr, h⟩ := Option.bind_eq_some_iff.mp h
  obtain ⟨sparse, hd, h⟩ := Option.bind_eq_some_iff.mp h
  obtain ⟨-, rfl⟩ := rd_some hr
  obtain ⟨-, rfl⟩ := wr_some hd
  exact (Option.some.inj h).symm

theorem cells_upd (s : SparseSet N stateCount) (w x : Nat) (slot : Slot) :
    ({ s with sparse := upd s.sparse w slot } : SparseSet N stateCount).cells x =
      if x = w then ⟨slot.state, slot.generation⟩ else s.cells x := by
  by_cases e : x = w
  · subst e
    simp only [cells, upd_same, if_true]
  · simp only [if_neg e, cells, upd_other e]

/-- The arrays after a store in range. -/
def put (s : SparseSet N stateCount) : Write → SparseSet N stateCount
  | .dense i who => { s with dense := upd s.dense i who }
  | .cursor k i => { s with cursor := upd s.cursor k i }
  | .where_ who i => { s with sparse := upd s.sparse who { s.sparse who with where_ := i } }
  | .state who k => { s with sparse := upd s.sparse who { s.sparse who with state := k } }
  | .generation who g =>
      { s with sparse := upd s.sparse who { s.sparse who with generation := g } }

theorem store_eq {s t : SparseSet N stateCount} {x : Write} (h : s.store x = some t) :
    t = s.put x := by
  cases x with
  | dense i who =>
    obtain ⟨dense, hd, h⟩ := Option.bind_eq_some_iff.mp h
    obtain ⟨-, rfl⟩ := wr_some hd
    exact (Option.some.inj h).symm
  | cursor k i =>
    obtain ⟨cursor, hd, h⟩ := Option.bind_eq_some_iff.mp h
    obtain ⟨-, rfl⟩ := wr_some hd
    exact (Option.some.inj h).symm
  | where_ | state | generation => exact patch_some h

theorem put_cursor (s : SparseSet N stateCount) (k i : Nat) :
    (s.put (.cursor k i)).cursor = upd s.cursor k i := rfl

theorem put_where_cells (s : SparseSet N stateCount) (w i : Nat) :
    (s.put (.where_ w i)).cells = s.cells := by
  funext x
  rw [put, cells_upd]
  split
  · rename_i e
    rw [e]
    rfl
  · rfl

theorem put_state_cells (s : SparseSet N stateCount) (w a x : Nat) :
    (s.put (.state w a)).cells x = if x = w then (s.cells w).move a else s.cells x :=
  cells_upd s w x _

theorem put_generation_cells (s : SparseSet N stateCount) (w g x : Nat) :
    (s.put (.generation w g)).cells x = if x = w then ⟨(s.cells w).state, g⟩ else s.cells x :=
  cells_upd s w x _

/-- Such a store lets the bucket grow at most. -/
theorem Write.Widens.grows {s t : SparseSet N stateCount} {b : Nat} {x : Write}
    (hx : x.Widens s b) (h : s.store x = some t) : Grows b s t := by
  obtain rfl := store_eq h
  cases x with
  | dense k who =>
    refine ⟨le_rfl, le_rfl, fun i hi => upd_other ?_ _ _, fun _ _ => rfl⟩
    rintro rfl
    exact hx hi
  | cursor k c =>
    refine ⟨?_, ?_, fun _ _ => rfl, fun _ _ => rfl⟩
    · rw [put_cursor, upd_apply]
      split
      · exact hx.1 (Eq.symm ‹_›)
      · exact le_rfl
    · rw [put_cursor, upd_apply]
      split
      · exact hx.2 (Eq.symm ‹_›)
      · exact le_rfl
  | where_ who i =>
    refine ⟨le_rfl, le_rfl, fun _ _ => rfl, fun _ _ => ?_⟩
    rw [SparseSet.handle, put_where_cells]
    rfl
  | state who a =>
    refine ⟨le_rfl, le_rfl, fun _ _ => rfl, fun i _ => ?_⟩
    rw [SparseSet.handle, SparseSet.handle, put_state_cells]
    split
    · rename_i e
      rw [e, Cell.move_generation]
    · rfl
  | generation who g =>
    refine ⟨le_rfl, le_rfl, fun _ _ => rfl, fun i hi => ?_⟩
    rw [SparseSet.handle, SparseSet.handle, put_generation_cells, if_neg (hx i hi)]

/-- A store that is not to `state_` leaves the states. -/
theorem Write.Keeps.state_eq {s t : SparseSet N stateCount} {x : Write} (hx : x.Keeps)
    (h : s.store x = some t) (w : Nat) : (t.cells w).state = (s.cells w).state := by
  obtain rfl := store_eq h
  cases x with
  | dense | cursor => rfl
  | state => exact hx.elim
  | where_ who i => rw [put_where_cells]
  | generation who g =>
    rw [put_generation_cells]
    split
    · rename_i e
      rw [e]
    · rfl

theorem Full.grows {s t : SparseSet N stateCount} {b : Nat} (h : s.Full b) (hg : Grows b s t)
    (hst : ∀ w < N, (t.cells w).state = b → (s.cells w).state = b) : t.Full b := by
  refine ⟨hg.lo.trans (h.le.trans hg.hi), fun w hw hw' => ?_⟩
  obtain ⟨i, hi, e⟩ := h.mem w hw (hst w hw hw')
  exact ⟨i, hg.spans hi, (hg.dense i hi).trans e⟩

/-- The other slots keep their states. -/
theorem Write.Moves.state_eq {s t : SparseSet N stateCount} {x : Write} {w v : Nat}
    (hx : x.Moves w) (h : s.store x = some t) (hv : v ≠ w) :
    (t.cells v).state = (s.cells v).state := by
  cases x with
  | dense | cursor | where_ | generation =>
    refine Write.Keeps.state_eq ?_ h v
    trivial
  | state who a =>
    obtain rfl := store_eq h
    obtain rfl : who = w := hx
    rw [put_state_cells, if_neg hv]

theorem exec_state_eq {w v : Nat} (hv : v ≠ w) :
    ∀ {xs : List Write} {s t : SparseSet N stateCount}, (∀ x ∈ xs, x.Moves w) →
      exec store s xs = some t → (t.cells v).state = (s.cells v).state
  | [], _, _, _, h => by
      cases h
      rfl
  | x :: xs, s, t, hxs, h => by
      obtain ⟨u, hu, h⟩ := Option.bind_eq_some_iff.mp h
      rw [exec_state_eq hv (fun y hy => hxs y (List.mem_cons_of_mem x hy)) h,
        (hxs x List.mem_cons_self).state_eq hu hv]

theorem Settling.grows {b : Nat} : ∀ {xs : List Write} {s t : SparseSet N stateCount},
    Settling b s xs → exec store s xs = some t → Grows b s t
  | [], s, t, _, h => by
      cases h
      exact .refl b s
  | x :: xs, s, t, hs, h => by
      obtain ⟨u, hu, h⟩ := Option.bind_eq_some_iff.mp h
      exact (hs.2.1.grows hu).trans (Settling.grows (hs.2.2 u hu) h)

/-- Stores of the exchange come before the others. -/
theorem Full.settling {b : Nat} {ys : List Write} :
    ∀ {xs : List Write} {s : SparseSet N stateCount}, s.Full b →
      (∀ x ∈ xs, (∃ i who, x = .dense i who ∧ ¬ s.Spans b i) ∨ ∃ who i, x = .where_ who i) →
      (∀ t, exec store s xs = some t → Settling b t ys) → Settling b s (xs ++ ys)
  | [], s, _, _, hys => hys s rfl
  | x :: xs, s, hs, hxs, hys => by
      have hx : x.Widens s b ∧ x.Keeps := by
        rcases hxs x List.mem_cons_self with ⟨i, who, rfl, hi⟩ | ⟨who, i, rfl⟩
        · exact ⟨hi, trivial⟩
        · exact ⟨trivial, trivial⟩
      refine ⟨hs, hx.1, fun t ht => ?_⟩
      have hcur : t.cursor = s.cursor := by
        rcases hxs x List.mem_cons_self with ⟨i, who, rfl, -⟩ | ⟨who, i, rfl⟩
        · rw [store_eq ht]; rfl
        · rw [store_eq ht]; rfl
      refine (hs.grows (hx.1.grows ht) fun w _ hw => hx.2.state_eq ht w ▸ hw).settling
        (fun y hy => ?_) fun u hu => hys u (by rw [exec_cons, ht]; exact hu)
      simp only [Spans, hcur]
      exact hxs y (List.mem_cons_of_mem x hy)

/-! ### One step of a move -/

/-- The stores that exchange `w` and what is at `q`, and set the cut `k` to `c` and the state of `w`
to `a`. -/
def moveWrites (s : SparseSet N stateCount) (w q k c a : Nat) : List Write :=
  [.dense (s.pos w) (s.dense q), .dense q w, .where_ (s.dense q) (u32 (s.pos w)),
    .where_ w (u32 q)] ++ [.cursor k c, .state w a]

theorem moves_moveWrites (s : SparseSet N stateCount) (w q k c a : Nat) :
    ∀ x ∈ s.moveWrites w q k c a, x.Moves w := by
  intro x hx
  simp only [moveWrites, List.cons_append, List.nil_append, List.mem_cons, List.not_mem_nil,
    or_false] at hx
  rcases hx with rfl | rfl | rfl | rfl | rfl | rfl
  all_goals trivial

/-- The exchange, the cut and the state, one store after the other. -/
theorem exec_moveWrites {s t : SparseSet N stateCount} (h : Rep s) {w q k c a : Nat} (hw : w < N)
    (hq : q < N) (hk : k < stateCount + 1) (ht : s.swapDense (s.pos w) q = some t) :
    s.swapWrites (s.pos w) q =
        some [.dense (s.pos w) (s.dense q), .dense q w, .where_ (s.dense q) (u32 (s.pos w)),
          .where_ w (u32 q)] ∧
      exec store s [.dense (s.pos w) (s.dense q), .dense q w,
        .where_ (s.dense q) (u32 (s.pos w)), .where_ w (u32 q)] = some t ∧
      exec store s (s.moveWrites w q k c a) = some (t.recut w a k c) := by
  obtain ⟨hwrites, hexec⟩ := swapWrites_spec h.paired (h.paired.pos_lt w hw) hq
  rw [h.paired.dense_pos w hw] at hwrites hexec
  refine ⟨hwrites, hexec.trans ht, ?_⟩
  rw [moveWrites, exec_append, hexec, ht, Option.bind_some]
  simp only [exec_cons, exec_nil, store, rd_of_lt hw, wr_of_lt hw, wr_of_lt hk, Option.bind_eq_bind,
    Option.bind_some, Option.pure_def]
  rfl

/-- An exchange within a bucket, a cut and a state let another bucket grow at most, when the cut does
not shrink it and takes the slot in if that state is its own. -/
theorem Rep.settling {s : SparseSet N stateCount} (h : Rep s) (hN : N < 2 ^ 32) {w q k c a b : Nat}
    (hw : w < N) (hq : s.Spans (s.cells w).state q) (hk : k < stateCount + 1) (hb : b < stateCount)
    (hne : b ≠ (s.cells w).state)
    (hcut : (k = b → c ≤ s.cursor b) ∧ (k = b + 1 → s.cursor (b + 1) ≤ c))
    (hin : a = b → upd s.cursor k c b ≤ q ∧ q < upd s.cursor k c (b + 1)) :
    Settling b s (s.moveWrites w q k c a) := by
  have hcK := h.state_lt w hw
  have hqN := h.lt_of_spans hcK hq
  have hout : ∀ p < N, s.Spans (s.cells w).state p → ¬ s.Spans b p := by
    intro p hp hp₁ hp₂
    rw [h.spans_iff hcK hp] at hp₁
    rw [h.spans_iff hb hp, hp₁] at hp₂
    exact hne hp₂.symm
  obtain ⟨t, ht, hrep, htw, htcells, htcur⟩ := swapDense_rep h hN hw hq.1 hq.2
  obtain ⟨-, hexec, -⟩ := exec_moveWrites (a := a) (c := c) h hw hqN hk ht
  refine (h.full hb).settling (fun x hx => ?_) fun u hu => ?_
  · have hp : ¬ s.Spans b (s.pos w) :=
      hout _ (h.paired.pos_lt w hw) ⟨h.le_pos w hw, h.pos_lt w hw⟩
    simp only [List.mem_cons, List.not_mem_nil, or_false] at hx
    rcases hx with rfl | rfl | rfl | rfl
    · exact .inl ⟨_, _, rfl, hp⟩
    · exact .inl ⟨_, _, rfl, hout q hqN hq⟩
    · exact .inr ⟨_, _, rfl⟩
    · exact .inr ⟨_, _, rfl⟩
  · -- the slot is at `q` now, and the cut and its state are left to store
    rw [hexec] at hu
    cases hu
    have hwid : (Write.cursor k c).Widens t b := by rwa [Write.Widens, htcur]
    refine ⟨hrep.full hb, hwid, fun v hv => ?_⟩
    have hfull : v.Full b := (hrep.full hb).grows (hwid.grows hv) fun x _ hx => by
      rwa [Write.Keeps.state_eq (x := .cursor k c) trivial hv x] at hx
    refine ⟨hfull, trivial, fun u hu => ?_⟩
    have hg := Write.Widens.grows (x := .state w a) (b := b) trivial hu
    refine ⟨hg.lo.trans (hfull.le.trans hg.hi), fun x hx hst => ?_⟩
    obtain rfl := store_eq hv
    obtain rfl := store_eq hu
    rw [put_state_cells] at hst
    split at hst
    · rename_i e
      refine ⟨q, ?_, ?_⟩
      · have hcut' := hin hst
        rw [← htcur] at hcut'
        exact hcut'
      · rw [e, ← htw]
        exact hrep.paired.dense_pos w hw
    · obtain ⟨i, hi, hx'⟩ := hfull.mem x hx hst
      exact ⟨i, hg.spans hi, (hg.dense i hi).trans hx'⟩

/-- The stores of `IncrementState`, below the last state. -/
theorem incrementWrites_spec {s : SparseSet N stateCount} (h : Rep s) (hN : N < 2 ^ 32)
    {handle : Nat} (hw : slotIndex handle < N)
    (hlt : (s.cells (slotIndex handle)).state + 1 < stateCount) :
    ∃ writes, s.incrementWrites handle = some writes ∧
      exec store s writes = s.incrementState handle ∧ writes.length = 6 ∧
      (∀ x ∈ writes, x.Moves (slotIndex handle)) ∧
      ∀ b < stateCount, b ≠ (s.cells (slotIndex handle)).state → Settling b s writes := by
  set w := slotIndex handle with hwdef
  set c := (s.cells w).state with hc
  have hle : s.cursor c ≤ s.pos w := h.le_pos w hw
  have hpos : s.pos w < s.cursor (c + 1) := h.pos_lt w hw
  have hcN : s.cursor (c + 1) ≤ N := h.cuts.le_last hlt.le
  have hmono := h.cuts.mono (c + 1) hlt
  have hst : (s.sparse w).state = c := rfl
  have hwh : (s.sparse w).where_ = s.pos w := rfl
  have hk : c + 1 < stateCount + 1 := by omega
  have hnot : ¬ stateCount - 1 ≤ c := by omega
  have hsub := sub32_of_le (show 1 ≤ s.cursor (c + 1) by omega) (by omega)
  have hq : s.Spans c (s.cursor (c + 1) - 1) := ⟨by omega, by omega⟩
  obtain ⟨t, ht, -, -, htcells, htcur⟩ := swapDense_rep h hN hw hq.1 hq.2
  obtain ⟨hwrites, -, hexec⟩ := exec_moveWrites (a := c + 1) (c := s.cursor (c + 1) - 1) h hw
    (show s.cursor (c + 1) - 1 < N by omega) hk ht
  refine ⟨s.moveWrites w (s.cursor (c + 1) - 1) (c + 1) (s.cursor (c + 1) - 1) (c + 1), ?_, ?_,
    rfl, moves_moveWrites _ _ _ _ _ _, fun b hb hne => h.settling hN hw hq hk hb hne ⟨?_, ?_⟩ ?_⟩
  · simp only [incrementWrites, ← hwdef, rd_of_lt hw, Option.bind_eq_bind, Option.bind_some, hst,
      hwh, if_neg hnot, hsub, hwrites, rd_of_lt hk]
    rfl
  · rw [hexec]
    simp only [incrementState, ← hwdef, rd_of_lt hw, wr_of_lt hw, Option.bind_eq_bind,
      Option.bind_some, hst, hwh, if_neg hnot, rd_of_lt hk, wr_of_lt hk, hsub, ht, htcur,
      Option.pure_def]
    simp only [recut, htcur]
  · rintro rfl
    exact Nat.sub_le _ _
  · intro e
    exact absurd (Nat.succ.inj e).symm hne
  · rintro rfl
    rw [upd_same, upd_other (by omega)]
    omega

/-- The stores of `DecrementState`, above state `0`. -/
theorem decrementWrites_spec {s : SparseSet N stateCount} (h : Rep s) (hN : N < 2 ^ 32)
    {handle : Nat} (hw : slotIndex handle < N) (hlt : 0 < (s.cells (slotIndex handle)).state) :
    ∃ writes, s.decrementWrites handle = some writes ∧
      exec store s writes = s.decrementState handle ∧ writes.length = 6 ∧
      (∀ x ∈ writes, x.Moves (slotIndex handle)) ∧
      ∀ b < stateCount, b ≠ (s.cells (slotIndex handle)).state → Settling b s writes := by
  set w := slotIndex handle with hwdef
  set c := (s.cells w).state with hc
  have hle : s.cursor c ≤ s.pos w := h.le_pos w hw
  have hpos : s.pos w < s.cursor (c + 1) := h.pos_lt w hw
  have hcK : c < stateCount := h.state_lt w hw
  have hcN : s.cursor (c + 1) ≤ N := h.cuts.le_last hcK
  have hmono := h.cuts.mono (c - 1) (by omega)
  rw [Nat.sub_add_cancel hlt] at hmono
  have hst : (s.sparse w).state = c := rfl
  have hwh : (s.sparse w).where_ = s.pos w := rfl
  have hk : c < stateCount + 1 := by omega
  have hnot : ¬ c = 0 := by omega
  have hu := u32_of_lt (show s.cursor c + 1 < 2 ^ 32 by omega)
  have hq : s.Spans c (s.cursor c) := ⟨le_rfl, by omega⟩
  obtain ⟨t, ht, -, -, htcells, htcur⟩ := swapDense_rep h hN hw hq.1 hq.2
  obtain ⟨hwrites, -, hexec⟩ := exec_moveWrites (a := c - 1) (c := s.cursor c + 1) h hw
    (show s.cursor c < N by omega) hk ht
  refine ⟨s.moveWrites w (s.cursor c) c (s.cursor c + 1) (c - 1), ?_, ?_,
    rfl, moves_moveWrites _ _ _ _ _ _, fun b hb hne => h.settling hN hw hq hk hb hne ⟨?_, ?_⟩ ?_⟩
  · simp only [decrementWrites, ← hwdef, rd_of_lt hw, Option.bind_eq_bind, Option.bind_some, hst,
      hwh, if_neg hnot, hu, hwrites, rd_of_lt hk]
    rfl
  · rw [hexec]
    simp only [decrementState, ← hwdef, rd_of_lt hw, wr_of_lt hw, Option.bind_eq_bind,
      Option.bind_some, hst, hwh, if_neg hnot, rd_of_lt hk, wr_of_lt hk, hu, ht, htcur,
      Option.pure_def]
    simp only [recut, htcur]
  · exact fun e => absurd e.symm hne
  · intro e
    rw [← e]
    exact Nat.le_succ _
  · intro e
    have hcb : b + 1 = c := by omega
    rw [upd_other (by omega), hcb, upd_same]
    rw [← e]
    omega

end IocpServer.SparseSet
