import IocpServer.Pool.Exact

/-!
# Pool — Counts

Every run of pointer operations in which an object is used by one operation at a time, or copied
from by several.

* `refCounts_exact`: outside operations `refCount_` is the number of objects that name the slot,
  live pointers are valid, and every `Acquire` is matched by one `Push`, after the last of them.
-/

namespace IocpServer

/-- The object is outside any operation and names slot `i`. -/
def SharedPoolPtr.names {ι : Type} (p : SharedPoolPtr ι) (i : Nat) : Bool :=
  match p.pc with
  | .idle => p.live && p.pool && slotIndex p.handle == i
  | _ => false

/-- How many steps an operation still takes at most. -/
def After.left {ι : Type} : After ι → Nat
  | .done | .destroy => 0
  | .take _ => 4
  | .reset => 2

def Pc.left {ι : Type} : Pc ι → Nat
  | .idle => 0
  | .acquire _ => 3
  | .init _ => 2
  | .construct _ => 1
  | .copyPool _ current => current.elim 3 fun _ => 5
  | .copyHandle _ current => current.elim 2 fun _ => 4
  | .addRef _ current => current.elim 1 fun _ => 3
  | .release _ after => after.left + 2
  | .push _ after => after.left + 1
  | .takePool _ => 4
  | .takeHandle _ => 3
  | .leavePool _ => 2
  | .leaveHandle _ => 1
  | .clearPool => 2
  | .clearHandle => 1

namespace Pointers

open References

variable {ι : Type} {N stateCount : Nat} {s t : Pointers ι N stateCount} {a : ι}

/-- Every object is under the callers' care. -/
def All (_ : ι) : Prop := True

/-- No operation in progress has to do with slot `i`. -/
def Quiet (s : Pointers ι N stateCount) (i : Nat) : Prop :=
  ∀ a, (s.ptr a).pc ≠ .idle → ∀ h ∈ (s.ptr a).held + (s.ptr a).kept, slotIndex h ≠ i

theorem names_iff {p : SharedPoolPtr ι} {i : Nat} : p.names i = true ↔
    p.pc = .idle ∧ p.live = true ∧ p.pool = true ∧ slotIndex p.handle = i := by
  rw [SharedPoolPtr.names]
  split
  · rename_i h
    rw [Bool.and_eq_true, Bool.and_eq_true, beq_iff_eq, and_assoc]
    exact ⟨fun e => ⟨h, e⟩, fun e => e.2⟩
  · rename_i h
    exact ⟨fun e => absurd e Bool.false_ne_true, fun e => absurd e.1 (h ·)⟩

/-- What an object outside any operation contributes to a count. -/
theorem naming_held (hs : Shape All s.lock s.ptr) {i : Nat} (h : (s.ptr a).pc = .idle) :
    naming i (s.ptr a).held = if (s.ptr a).names i then 1 else 0 := by
  rw [SharedPoolPtr.held_idle h, SharedPoolPtr.own]
  cases hpool : (s.ptr a).pool with
  | false =>
      have hn : (s.ptr a).names i = false := by
        rw [SharedPoolPtr.names, h, hpool, Bool.and_false, Bool.false_and]
      rw [hn, if_neg Bool.false_ne_true, if_neg Bool.false_ne_true, naming_zero]
  | true =>
      have hlive : (s.ptr a).live = true := by
        by_contra hdead
        rw [hs.dead a (Bool.eq_false_iff.mpr hdead)] at hpool
        cases hpool
      rw [if_pos rfl, naming_singleton]
      refine if_congr ?_ rfl rfl
      rw [names_iff]
      exact ⟨fun e => ⟨h, hlive, hpool, e⟩, fun e => e.2.2.2⟩

/-- An operation in progress away from slot `i` contributes nothing to it. -/
theorem Quiet.naming_zero {i : Nat} (hq : Quiet s i) (h : (s.ptr a).pc ≠ .idle) :
    naming i (s.ptr a).held = 0 ∧ naming i (s.ptr a).kept = 0 := by
  have hzero : naming i ((s.ptr a).held + (s.ptr a).kept) = 0 := Multiset.countP_eq_zero.mpr (hq a h)
  rw [naming_add] at hzero
  omega

theorem names_idle {i : Nat} (h : (s.ptr a).names i = true) : (s.ptr a).pc = .idle :=
  (names_iff.mp h).1

/-! ### Operations end -/

theorem left_andThen (p : SharedPoolPtr ι) (after : After ι) :
    (p.andThen after).pc.left = after.left := by
  cases after <;> rfl

theorem left_copied (p : SharedPoolPtr ι) (current : Option Nat) :
    (p.copied current).pc.left = current.elim 0 fun _ => 2 := by
  cases current <;> rfl

theorem addRef_ptr {handle : Nat} (h : s.addRef handle = some t) : t.ptr = s.ptr := by
  obtain ⟨count, -, h⟩ := Option.bind_eq_some_iff.mp h
  obtain ⟨refCount, -, h⟩ := Option.bind_eq_some_iff.mp h
  cases h
  rfl

section

variable [DecidableEq ι]

/-- The step ends with an update at `a`, and has not touched the other operations. -/
theorem left_of_update {f : ι → SharedPoolPtr ι} {p : SharedPoolPtr ι} {n : Nat}
    (ht : t.ptr = Function.update f a p) (hf : ∀ b, (f b).pc = (s.ptr b).pc) (hp : p.pc.left < n) :
    (t.ptr a).pc.left < n ∧ ∀ b ≠ a, (t.ptr b).pc = (s.ptr b).pc := by
  rw [ht]
  refine ⟨by rwa [Function.update_self], fun b hb => ?_⟩
  rw [Function.update_of_ne hb, hf]

/-- A step of an operation brings it closer to its end and does not touch another's. -/
theorem run_left (h : s.run a = some t) :
    (t.ptr a).pc.left < (s.ptr a).pc.left ∧ ∀ b ≠ a, (t.ptr b).pc = (s.ptr b).pc := by
  have hsame : ∀ b, (s.ptr b).pc = (s.ptr b).pc := fun _ => rfl
  have hput : ∀ {other : ι} {q : SharedPoolPtr ι}, q.pc = (s.ptr other).pc →
      ∀ b, (Function.update s.ptr other q b).pc = (s.ptr b).pc := by
    intro other q hq b
    by_cases e : b = other
    · rw [e, Function.update_self, hq]
    · rw [Function.update_of_ne e]
  cases hpc : (s.ptr a).pc with
  | idle =>
      simp only [run, hpc] at h
      cases h
  | acquire state =>
      simp only [run, hpc] at h
      obtain ⟨⟨set, handle⟩, -, h⟩ := Option.bind_eq_some_iff.mp h
      dsimp only at h
      split at h
      · cases h
        exact left_of_update rfl hsame (Nat.lt_succ_self 2)
      · cases h
        exact left_of_update rfl hsame (Nat.succ_pos 2)
  | init handle =>
      simp only [run, hpc] at h
      obtain ⟨refCount, -, h⟩ := Option.bind_eq_some_iff.mp h
      cases h
      exact left_of_update rfl hsame (Nat.lt_succ_self 1)
  | construct handle =>
      simp only [run, hpc] at h
      obtain ⟨s', hadd, h⟩ := Option.bind_eq_some_iff.mp h
      cases h
      refine left_of_update (congrArg (Function.update · a _) (addRef_ptr hadd)) hsame ?_
      exact Nat.succ_pos 0
  | copyPool other current =>
      simp only [run, hpc] at h
      cases h
      refine left_of_update rfl hsame ?_
      cases current <;> exact Nat.lt_succ_self _
  | copyHandle other current =>
      simp only [run, hpc] at h
      cases h
      refine left_of_update rfl hsame ?_
      cases current <;> exact Nat.lt_succ_self _
  | addRef other current =>
      simp only [run, hpc] at h
      have hcopied : ((s.ptr a).copied current).pc.left < (Pc.addRef other current).left := by
        rw [left_copied]
        cases current <;> exact Nat.lt_succ_self _
      split at h
      · obtain ⟨s', hadd, h⟩ := Option.bind_eq_some_iff.mp h
        cases h
        exact left_of_update (congrArg (Function.update · a _) (addRef_ptr hadd)) hsame hcopied
      · cases h
        exact left_of_update rfl hsame hcopied
  | release handle after =>
      simp only [run, hpc] at h
      obtain ⟨count, -, h⟩ := Option.bind_eq_some_iff.mp h
      obtain ⟨refCount, -, h⟩ := Option.bind_eq_some_iff.mp h
      cases h
      refine left_of_update rfl hsame ?_
      split
      · exact Nat.lt_succ_self _
      · rw [left_andThen]
        exact Nat.lt_add_of_pos_right Nat.two_pos
  | push handle after =>
      simp only [run, hpc] at h
      obtain ⟨set, -, h⟩ := Option.bind_eq_some_iff.mp h
      cases h
      refine left_of_update rfl hsame ?_
      rw [left_andThen]
      exact Nat.lt_succ_self _
  | takePool other | takeHandle other | clearPool | clearHandle =>
      simp only [run, hpc] at h
      cases h
      exact left_of_update rfl hsame (Nat.lt_succ_self _)
  | leavePool other | leaveHandle other =>
      simp only [run, hpc] at h
      cases h
      exact left_of_update rfl (hput rfl) (Nat.lt_succ_self _)

end

/-! ### The runs -/

/-- What a pool and its pointers are like between two steps. -/
structure Good [Fintype ι] (s : Pointers ι N stateCount) : Prop where
  shape : Shape All s.lock s.ptr
  exact : s.refs.Exact
  current : s.refs.Current

/-- A new pool, and no pointer. -/
def start (ι : Type) (N stateCount : Nat) : Pointers ι N stateCount :=
  new N stateCount fun _ => .dead

variable [Fintype ι]

/-- A copy has its source's reference to count from. -/
theorem Good.covered (hg : Good s) (e : Event ι) : Covered Counted s e := by
  cases e with
  | run a =>
      intro other current hpc hpool
      have hsource : (s.ptr a).pc.source = some other := by rw [hpc]; rfl
      obtain ⟨-, hidle, hag⟩ := hg.shape.uses a other (.inr ⟨hsource, trivial⟩)
      rw [SharedPoolPtr.Agrees, hpc] at hag
      obtain ⟨hp, hh⟩ := hag
      have hmem : (s.ptr a).handle ∈ s.refs.held := by
        refine mem_held (a := other) ?_
        rw [SharedPoolPtr.held_idle hidle, SharedPoolPtr.own, ← hp, hpool, if_pos rfl, hh]
        exact Multiset.mem_singleton_self _
      exact ⟨hg.exact.inRange_held hmem, hmem⟩
  | null | acquire | copy | copyAssign | move | moveAssign | reset | destroy => trivial

/-- An operation in progress can go on, or the one that holds the lock can. -/
theorem Good.runnable (hg : Good s) (ha : (s.ptr a).pc ≠ .idle) : ∃ b, Legit All s (.run b) := by
  by_cases hl : (s.ptr a).pc.Locks → s.lock = none
  · exact ⟨a, ha, hl⟩
  · obtain ⟨-, hlock⟩ := Classical.not_imp.mp hl
    obtain ⟨b, hb⟩ := Option.ne_none_iff_exists'.mp hlock
    obtain ⟨h, hh⟩ := hg.shape.lock b hb
    exact ⟨b, by rw [hh]; nofun, by rw [hh]; nofun⟩

theorem start_good (hN : N < 2 ^ 32) (hK : 1 ≤ stateCount) : Good (start ι N stateCount) := by
  have hdead : ∀ a : ι, (fun _ => .dead : ι → SharedPoolPtr ι) a = .dead ∨
      (fun _ => .dead : ι → SharedPoolPtr ι) a = .null := fun _ => Or.inl rfl
  refine ⟨.idle hdead, ?_, ?_⟩
  · rw [start, new_refs hdead]
    exact empty_exact hN hK
  · rw [start, new_refs hdead]
    exact empty_current

/-- Outside operations a slot is held by the objects that name it, and not kept. -/
theorem Good.naming_refs (hg : Good s) {i : Nat} (hq : Quiet s i) :
    naming i s.refs.held = (Finset.univ.filter fun a => (s.ptr a).names i = true).card ∧
      naming i s.refs.kept = 0 := by
  constructor
  · rw [Finset.card_filter]
    refine (countP_total _ _ _).trans (Finset.sum_congr rfl fun a _ => ?_)
    by_cases h : (s.ptr a).pc = .idle
    · exact naming_held hg.shape h
    · have hn : ¬ (s.ptr a).names i = true := fun e => h (names_idle e)
      rw [if_neg hn]
      exact (hq.naming_zero h).1
  · refine (countP_total _ _ _).trans (Finset.sum_eq_zero fun a _ => ?_)
    by_cases h : (s.ptr a).pc = .idle
    · rw [SharedPoolPtr.kept_idle h]
      rfl
    · exact (hq.naming_zero h).2

theorem Good.valid (hN : N < 2 ^ 32) (hg : Good s) {h : Nat} (hh : h ∈ s.refs.held) :
    s.set.isValid h = true ∧ ∃ state, s.set.getState h = some state ∧ state ≠ 0 := by
  have hw : slotIndex h < N := hg.exact.inRange_held hh
  have hrep : s.set.Rep := hg.exact.rep
  have hcur : h = s.set.handle (slotIndex h) := hg.current h (Multiset.mem_add.mpr (.inl hh))
  have hgen : (s.set.sparse (slotIndex h)).generation = slotGeneration h := by
    conv_rhs => rw [hcur, hrep.slotGeneration_handle hN hw]
    rfl
  refine ⟨?_, (s.set.cells (slotIndex h)).state, ?_, fun h0 => ?_⟩
  · rw [SparseSet.isValid, hgen]
    simp [hw]
  · simp only [SparseSet.getState, rd_of_lt hw, Option.bind_eq_bind, Option.bind_some]
    rfl
  · have hpos : 0 < naming (slotIndex h) s.refs.held := naming_pos.mpr ⟨h, hh, rfl⟩
    have hfree := ((hg.exact.tally _ hw).free_iff.mp h0).1
    omega

variable [DecidableEq ι]

/-- No operation accesses what is not there. -/
theorem Good.progress (hN : N < 2 ^ 32) (hg : Good s) {e : Event ι} (hl : Legit All s e) :
    ∃ t, s.step e = some t := by
  obtain ⟨t, ht, -⟩ := step_simulates hN hg.shape hg.exact hl (hg.covered e)
  exact ⟨t, ht⟩

theorem Good.step (hN : N < 2 ^ 32) (hM : Fintype.card ι ≤ 2 ^ 60) (hg : Good s) {e : Event ι}
    (hl : Legit All s e) (h : s.step e = some t) :
    Good t ∧ (t.refs = s.refs ∨ RefStep Counted s.refs t.refs) := by
  obtain ⟨hshape, hexact, hrefs⟩ := step_exact hN hM (fun r hx h hc => hx.live hc) hg.shape hg.exact
    hl (hg.covered e) h
  refine ⟨⟨hshape, hexact, ?_⟩, hrefs⟩
  rcases hrefs with hrefs | st
  · rw [hrefs]
    exact hg.current
  · exact st.current hN hg.exact hg.current

/-- While an operation is in progress, one of them comes closer to its end. -/
theorem Good.nearer (hN : N < 2 ^ 32) (hg : Good s) (h : ¬ ∀ a, (s.ptr a).pc = .idle) :
    ∃ b t, Legit All s (.run b) ∧ s.step (.run b) = some t ∧
      ∑ a, (t.ptr a).pc.left < ∑ a, (s.ptr a).pc.left := by
  obtain ⟨a, ha⟩ := not_forall.mp h
  obtain ⟨b, hl⟩ := hg.runnable ha
  obtain ⟨t, ht⟩ := hg.progress hN hl
  obtain ⟨hlt, hsame⟩ := run_left ht
  refine ⟨b, t, hl, ht, Finset.sum_lt_sum (fun x _ => ?_) ⟨b, Finset.mem_univ b, hlt⟩⟩
  by_cases e : x = b
  · rw [e]
    exact hlt.le
  · rw [hsame x e]

/-- A run of pointer operations. -/
abbrev Run (es : List (Event ι)) (s : Pointers ι N stateCount) : Prop :=
  Runs step (Legit All) (start ι N stateCount) es s

theorem run_good (hN : N < 2 ^ 32) (hK : 1 ≤ stateCount) (hM : Fintype.card ι ≤ 2 ^ 60)
    {es : List (Event ι)} (r : Run es s) : Good s :=
  r.invariant (start_good hN hK) fun _ _ _ hg hl h => (hg.step hN hM hl h).1

/-- **Operations can always be finished.** -/
theorem run_finishes (hN : N < 2 ^ 32) (hK : 1 ≤ stateCount) (hM : Fintype.card ι ≤ 2 ^ 60)
    (n : Nat) : ∀ {es : List (Event ι)} {s : Pointers ι N stateCount}, Run es s →
      ∑ a, (s.ptr a).pc.left ≤ n →
      ∃ (fs : List (Event ι)) (t : Pointers ι N stateCount), Run (es ++ fs) t ∧
        (∀ e ∈ fs, ∃ a, e = .run a) ∧ ∀ a, (t.ptr a).pc = .idle := by
  induction n with
  | zero =>
      intro es s r hn
      by_cases h : ∀ a, (s.ptr a).pc = .idle
      · exact ⟨[], s, by rwa [List.append_nil], nofun, h⟩
      · obtain ⟨b, t, -, -, hlt⟩ := (run_good hN hK hM r).nearer hN h
        omega
  | succ n ih =>
      intro es s r hn
      by_cases h : ∀ a, (s.ptr a).pc = .idle
      · exact ⟨[], s, by rwa [List.append_nil], nofun, h⟩
      · obtain ⟨b, t, hl, ht, hlt⟩ := (run_good hN hK hM r).nearer hN h
        obtain ⟨fs, u, hr, hfs, hidle⟩ := ih (r.more hl ht) (by omega)
        refine ⟨.run b :: fs, u, by rwa [List.append_assoc] at hr, fun e he => ?_, hidle⟩
        rcases List.mem_cons.mp he with rfl | he
        · exact ⟨b, rfl⟩
        · exact hfs e he

/-- **The counts.**  `balance` counts `Acquire` against `Push`, and `last` says when the `Push`
comes. -/
structure Counts (s : Pointers ι N stateCount) : Prop where
  count : ∀ i < N, Quiet s i →
    s.refCount i = (Finset.univ.filter fun a => (s.ptr a).names i = true).card
  valid : ∀ a, (s.ptr a).pc = .idle → (s.ptr a).pool = true →
    s.set.isValid (s.ptr a).handle = true ∧
      ∃ state, s.set.getState (s.ptr a).handle = some state ∧ state ≠ 0
  balance : ∀ i < N, s.acquired i = s.pushed i + if (s.set.cells i).state = 0 then 0 else 1
  generation : ∀ i < N, (s.set.cells i).generation = u32 (s.pushed i)
  busy : ∀ i < N, Quiet s i → ((s.set.cells i).state ≠ 0 ↔ ∃ a, (s.ptr a).names i = true)
  last : ∀ e t, Legit All s e → s.step e = some t → ∀ i < N, t.pushed i = s.pushed i ∨
    t.pushed i = s.pushed i + 1 ∧ ∀ a, (s.ptr a).names i = false

theorem Good.counts (hN : N < 2 ^ 32) (hM : Fintype.card ι ≤ 2 ^ 60) (hg : Good s) : Counts s where
  count i hi hq := (hg.exact.tally i hi).count_eq.trans (hg.naming_refs hq).1
  valid a hidle hpool := by
    refine hg.valid hN (mem_held (a := a) ?_)
    rw [SharedPoolPtr.held_idle hidle, SharedPoolPtr.own, hpool, if_pos rfl]
    exact Multiset.mem_singleton_self _
  balance i hi := (hg.exact.tally i hi).balance
  generation i hi := (hg.exact.tally i hi).turn
  busy i hi hq := by
    obtain ⟨hheld, hkept⟩ := hg.naming_refs hq
    refine (not_congr (hg.exact.tally i hi).free_iff).trans ?_
    rw [hheld, hkept, and_iff_left rfl, ← Ne, ← Nat.pos_iff_ne_zero, Finset.card_pos]
    constructor
    · rintro ⟨a, ha⟩
      exact ⟨a, (Finset.mem_filter.mp ha).2⟩
    · rintro ⟨a, ha⟩
      exact ⟨a, Finset.mem_filter.mpr ⟨Finset.mem_univ a, ha⟩⟩
  last e t hl h i hi := by
    rcases (hg.step hN hM hl h).2 with hrefs | st
    · exact .inl (congrFun (congrArg References.pushed hrefs) i)
    · rcases st.pushed hg.exact hi with e | ⟨e, hnone⟩
      · exact .inl e
      · refine .inr ⟨e, fun a => Bool.eq_false_iff.mpr fun hn => ?_⟩
        obtain ⟨hidle, -, hpool, hslot⟩ := names_iff.mp hn
        have hmem : (s.ptr a).handle ∈ s.refs.held := by
          refine mem_held (a := a) ?_
          rw [SharedPoolPtr.held_idle hidle, SharedPoolPtr.own, hpool, if_pos rfl]
          exact Multiset.mem_singleton_self _
        have hpos : 0 < naming i s.refs.held := naming_pos.mpr ⟨_, hmem, hslot⟩
        omega

/-- **Reference counts are exact, and each acquisition is released once.**  In every state that any
interleaving of pointer operations reaches, the counts are as they should be; every operation that
may be started or continued can be; and the operations in progress can be finished. -/
theorem refCounts_exact (hN : N < 2 ^ 32) (hK : 1 ≤ stateCount) (hM : Fintype.card ι ≤ 2 ^ 60)
    {es : List (Event ι)} {s : Pointers ι N stateCount} (r : Run es s) :
    Counts s ∧ (∀ e, Legit All s e → ∃ t, s.step e = some t) ∧
      (∀ a, (s.ptr a).pc ≠ .idle → ∃ b, Legit All s (.run b)) ∧
      ∃ (fs : List (Event ι)) (t : Pointers ι N stateCount), Run (es ++ fs) t ∧
        (∀ e ∈ fs, ∃ a, e = .run a) ∧ ∀ a, (t.ptr a).pc = .idle := by
  have hg := run_good hN hK hM r
  exact ⟨hg.counts hN hM, fun e hl => hg.progress hN hl, fun a ha => hg.runnable ha,
    run_finishes hN hK hM _ r le_rfl⟩

instance {κ : Type} : DecidablePred (All : κ → Prop) := fun _ => isTrue trivial

/-- One slot, shared by two of three pointers: acquired by the first, copied to the second, assigned
between them, and moved to the third. -/
def sharing : List (Event (Fin 3)) :=
  [.acquire 0 1, .run 0, .run 0, .run 0, .copy 1 0, .run 1, .run 1, .run 1,
    .copyAssign 1 0, .run 1, .run 1, .run 1, .run 1, .move 2 0, .run 2, .run 2, .run 2, .run 2]

theorem refCounts_exact_sharing : ∃ s : Pointers (Fin 3) 2 2, Run sharing s ∧ s.refCount 0 = 2 ∧
    Counts s ∧ ∀ e, Legit All s e → ∃ t, s.step e = some t := by
  have hexec : (execIf (fun s e => decide (Legit All s e)) step (start (Fin 3) 2 2) sharing).map
      (fun s => s.refCount 0) = some 2 := by decide +kernel
  obtain ⟨s, hs, hcount⟩ := Option.map_eq_some_iff.mp hexec
  have r : Run sharing s := Runs.of_execIf (I := fun _ => True) (fun _ _ _ h => of_decide_eq_true h)
    (fun _ _ _ _ _ _ => trivial) trivial hs
  have h := refCounts_exact (by decide) (by decide) (by decide) r
  exact ⟨s, r, hcount, h.1, h.2.1⟩

end Pointers

end IocpServer
