import IocpServer.Pool.Ownership

/-!
# Pool — Exact

The pointer objects of `SharedPoolPtr.hpp`, with all their interleavings, refine the books of
`References`.

* `run_acquire`, …, `run_leaveHandle`: each atomic step is possible, and is one step on the books
  or none.
* `step_simulates`: so is each event the callers may cause.
* `step_exact`: it keeps the books exact, if every copy counts a live slot.
-/

namespace IocpServer

namespace Pointers

open References

variable {ι : Type} [Fintype ι] {N stateCount : Nat}

/-- The references of all objects together. -/
def refs (s : Pointers ι N stateCount) : References N stateCount where
  set := s.set
  refCount := s.refCount
  held := total SharedPoolPtr.held s.ptr
  kept := total SharedPoolPtr.kept s.ptr
  acquired := s.acquired
  pushed := s.pushed

/-- What a step of the objects is on the books. -/
def Simulates (Guarded : ι → Prop) (Source : References N stateCount → Nat → Prop)
    (s t : Pointers ι N stateCount) : Prop :=
  Shape Guarded t.lock t.ptr ∧ (t.refs = s.refs ∨ RefStep Source s.refs t.refs)

variable {Guarded : ι → Prop} {Source : References N stateCount → Nat → Prop}
  {s t : Pointers ι N stateCount} {a : ι}

theorem mem_held {h : Nat} (hh : h ∈ (s.ptr a).held) : h ∈ s.refs.held := mem_total.mpr ⟨a, hh⟩

theorem mem_kept {h : Nat} (hk : h ∈ (s.ptr a).kept) : h ∈ s.refs.kept := mem_total.mpr ⟨a, hk⟩

/-- Objects that hold nothing. -/
theorem new_refs {ptr : ι → SharedPoolPtr ι} (hptr : ∀ a, ptr a = .dead ∨ ptr a = .null) :
    (new N stateCount ptr).refs = .empty N stateCount := by
  refine References.ext rfl rfl ?_ ?_ rfl rfl
  · refine Finset.sum_eq_zero fun a _ => ?_
    show (ptr a).held = 0
    rcases hptr a with h | h <;> rw [h] <;> rfl
  · refine Finset.sum_eq_zero fun a _ => ?_
    show (ptr a).kept = 0
    rcases hptr a with h | h <;> rw [h] <;> rfl

variable [DecidableEq ι]

/-- A step that leaves the books alone. -/
theorem refs_put {p : SharedPoolPtr ι} (hh : p.held = (s.ptr a).held)
    (hk : p.kept = (s.ptr a).kept) : (s.put a p).refs = s.refs :=
  References.ext rfl rfl (total_update_same hh) (total_update_same hk) rfl rfl

/-! ### The steps that touch a count or a slot -/

theorem run_acquire (hN : N < 2 ^ 32) (hs : Shape Guarded s.lock s.ptr) (hrep : s.set.Rep)
    {state : Nat} (hpc : (s.ptr a).pc = .acquire state) :
    ∃ t, s.run a = some t ∧ Simulates Guarded Source s t := by
  have ha : (s.ptr a).pc ≠ .idle := by simp [hpc]
  have hheld : (s.ptr a).held = 0 := by rw [SharedPoolPtr.held, hpc]
  have hkept : (s.ptr a).kept = 0 := by rw [SharedPoolPtr.kept, hpc]
  have hstate : state ≠ 0 := by
    have h := hs.sound a
    rwa [SharedPoolPtr.Sound, hpc] at h
  rcases SparseSet.pop_valid hrep hN state with ⟨set, handle, hp, hv⟩ | hp
  · refine ⟨{ s with
      set, lock := some a,
      acquired := upd s.acquired (slotIndex handle) (s.acquired (slotIndex handle) + 1),
      ptr := Function.update s.ptr a { s.ptr a with pc := .init handle } }, ?_, ?_, .inr ?_⟩
    · simp only [run, hpc, hp, hv, Option.bind_eq_bind, Option.bind_some, if_true]
      rfl
    · refine hs.advance ha (fun x hx => .inl ⟨?_, handle, rfl⟩) (fun h => ?_) trivial
        (fun _ h => by cases h) fun _ h => by cases h
      · exact (Option.some.inj hx).symm
      · exact absurd ((hs.live ha).symm.trans h) (by decide)
    · refine (RefStep.pop hstate hp hv).of_eq
        (References.ext rfl rfl (total_update_same ?_) (total_gain ?_) rfl rfl)
      · rw [hheld]; rfl
      · rw [hkept, zero_add]; rfl
  · have hv : s.set.isValid kInvalidHandle = false := SparseSet.isValid_invalid hN s.set
    refine ⟨s.put a .null, ?_, ?_, .inl (refs_put hheld.symm hkept.symm)⟩
    · simp only [run, hpc, hp, hv, Option.bind_eq_bind, Option.bind_some, Bool.false_eq_true, if_false]
      rfl
    · exact hs.resume ha (by simp [hpc]) ⟨rfl, fun _ => trivial, trivial⟩ (.inl rfl) fun h => by cases h

theorem run_init (hs : Shape Guarded s.lock s.ptr) (hx : s.refs.Exact) {h : Nat}
    (hpc : (s.ptr a).pc = .init h) : ∃ t, s.run a = some t ∧ Simulates Guarded Source s t := by
  have ha : (s.ptr a).pc ≠ .idle := by simp [hpc]
  have hheld : (s.ptr a).held = 0 := by rw [SharedPoolPtr.held, hpc]
  have hkept : (s.ptr a).kept = {h} := by rw [SharedPoolPtr.kept, hpc]
  have hmem : h ∈ s.refs.kept := mem_kept (by rw [hkept]; exact Multiset.mem_singleton_self h)
  have hw : slotIndex h < N := hx.inRange_kept hmem
  -- no reference has been counted yet, so `Init` stores what is there
  have h0 : s.refCount (slotIndex h) = 0 := by
    have ht := hx.tally _ hw
    have hpos : 0 < naming (slotIndex h) s.refs.kept := naming_pos.mpr ⟨h, hmem, rfl⟩
    rcases ht.kept_once with e | e
    · omega
    · exact ht.count_eq.trans e.2
  refine ⟨{ s with
    refCount := upd s.refCount (slotIndex h) 0, lock := none,
    ptr := Function.update s.ptr a { s.ptr a with pc := .construct h } }, ?_, ?_, .inl ?_⟩
  · simp only [run, hpc, wr_of_lt hw, Option.bind_eq_bind, Option.bind_some]
    rfl
  · refine hs.advance ha (fun _ e => by cases e) (fun e => ?_) trivial (fun _ h => by cases h)
      fun _ h => by cases h
    exact absurd ((hs.live ha).symm.trans e) (by decide)
  · refine References.ext rfl ?_ (total_update_same ?_) (total_update_same ?_) rfl rfl
    · exact (congrArg (upd s.refCount (slotIndex h)) h0.symm).trans (Function.update_eq_self _ _)
    · rw [hheld]; rfl
    · rw [hkept]; rfl

theorem run_construct (hs : Shape Guarded s.lock s.ptr) (hx : s.refs.Exact) {h : Nat}
    (hpc : (s.ptr a).pc = .construct h) :
    ∃ t, s.run a = some t ∧ Simulates Guarded Source s t := by
  have ha : (s.ptr a).pc ≠ .idle := by simp [hpc]
  have hheld : (s.ptr a).held = 0 := by rw [SharedPoolPtr.held, hpc]
  have hkept : (s.ptr a).kept = {h} := by rw [SharedPoolPtr.kept, hpc]
  have hw : slotIndex h < N :=
    hx.inRange_kept (mem_kept (by rw [hkept]; exact Multiset.mem_singleton_self h))
  refine ⟨{ s with
    refCount := upd s.refCount (slotIndex h) (u64 (s.refCount (slotIndex h) + 1)),
    ptr := Function.update s.ptr a ⟨true, true, h, .idle⟩ }, ?_, ?_, .inr ?_⟩
  · simp only [run, hpc, addRef_eq hw, Option.bind_eq_bind, Option.bind_some]
    rfl
  · exact hs.resume ha (by simp [hpc]) ⟨rfl, fun _ => trivial, trivial⟩ (.inl rfl)
      fun h => by cases h
  · have hlose : s.refs.kept = total SharedPoolPtr.kept (Function.update s.ptr a
        ⟨true, true, h, .idle⟩) + {h} := total_lose (by rw [hkept]; exact (zero_add _).symm)
    refine (RefStep.first hlose).of_eq (References.ext rfl rfl (total_gain ?_) rfl rfl rfl)
    rw [hheld, zero_add]
    rfl

theorem run_addRef (hs : Shape Guarded s.lock s.ptr) {other : ι} {current : Option Nat}
    (hpc : (s.ptr a).pc = .addRef other current)
    (hsource : (s.ptr a).pool = true →
      slotIndex (s.ptr a).handle < N ∧ Source s.refs (s.ptr a).handle) :
    ∃ t, s.run a = some t ∧ Simulates Guarded Source s t := by
  have ha : (s.ptr a).pc ≠ .idle := by simp [hpc]
  have hinit : ∀ h, (s.ptr a).pc ≠ .init h := by simp [hpc]
  have hheld : (s.ptr a).held = saved current := by rw [SharedPoolPtr.held, hpc]
  have hkept : (s.ptr a).kept = 0 := by rw [SharedPoolPtr.kept, hpc]
  have hshape : Shape Guarded s.lock (Function.update s.ptr a ((s.ptr a).copied current)) := by
    refine hs.resume ha hinit (SharedPoolPtr.plain_copied current)
      (.inl (SharedPoolPtr.taken_copied current)) fun h => ?_
    rw [SharedPoolPtr.live_copied, hs.live ha] at h
    cases h
  cases hpool : (s.ptr a).pool with
  | true =>
      obtain ⟨hw, hsrc⟩ := hsource hpool
      refine ⟨{ s with
        refCount := upd s.refCount (slotIndex (s.ptr a).handle)
          (u64 (s.refCount (slotIndex (s.ptr a).handle) + 1)),
        ptr := Function.update s.ptr a ((s.ptr a).copied current) }, ?_, hshape, .inr ?_⟩
      · simp only [run, hpc, hpool, addRef_eq hw, Option.bind_eq_bind, Option.bind_some, if_true]
        rfl
      · refine (RefStep.share hsrc).of_eq
          (References.ext rfl rfl (total_gain ?_) (total_update_same ?_) rfl rfl)
        · rw [SharedPoolPtr.held_copied, SharedPoolPtr.own, hpool, hheld, add_comm]
          rfl
        · rw [SharedPoolPtr.kept_copied, hkept]
  | false =>
      refine ⟨s.put a ((s.ptr a).copied current), ?_, hshape, .inl (refs_put ?_ ?_)⟩
      · simp only [run, hpc, hpool, Option.bind_eq_bind, Option.bind_some, Bool.false_eq_true,
          if_false]
        rfl
      · rw [SharedPoolPtr.held_copied, SharedPoolPtr.own, hpool, hheld]
        exact zero_add _
      · rw [SharedPoolPtr.kept_copied, hkept]

theorem run_release (hs : Shape Guarded s.lock s.ptr) (hx : s.refs.Exact) {h : Nat}
    {after : After ι} (hpc : (s.ptr a).pc = .release h after) :
    ∃ t, s.run a = some t ∧ Simulates Guarded Source s t := by
  have ha : (s.ptr a).pc ≠ .idle := by simp [hpc]
  have hinit : ∀ h, (s.ptr a).pc ≠ .init h := by simp [hpc]
  have hheld : (s.ptr a).held = (s.ptr a).remaining after + {h} := by rw [SharedPoolPtr.held, hpc]
  have hkept : (s.ptr a).kept = 0 := by rw [SharedPoolPtr.kept, hpc]
  have htaken : (s.ptr a).pc.taken = after.taken := by rw [hpc]; rfl
  have hw : slotIndex h < N := by
    refine hx.inRange_held (mem_held (a := a) ?_)
    rw [hheld]
    exact mem_add_singleton _ h
  by_cases hc : s.refCount (slotIndex h) = 1
  · refine ⟨{ s with
      refCount := upd s.refCount (slotIndex h) (sub64 (s.refCount (slotIndex h)) 1),
      ptr := Function.update s.ptr a { s.ptr a with pc := .push h after } }, ?_, ?_, .inr ?_⟩
    · simp only [run, hpc, rd_of_lt hw, wr_of_lt hw, Option.bind_eq_bind, Option.bind_some, if_pos hc]
      rfl
    · refine hs.resume ha hinit ⟨rfl, fun _ => trivial, trivial⟩ (.inr htaken.symm) fun e => ?_
      exact absurd ((hs.live ha).symm.trans e) (by decide)
    · have hlose : s.refs.held = total SharedPoolPtr.held (Function.update s.ptr a
          { s.ptr a with pc := .push h after }) + {h} := total_lose hheld
      refine (RefStep.last hlose hc).of_eq (References.ext rfl rfl rfl (total_gain ?_) rfl rfl)
      rw [hkept, zero_add]
      rfl
  · refine ⟨{ s with
      refCount := upd s.refCount (slotIndex h) (sub64 (s.refCount (slotIndex h)) 1),
      ptr := Function.update s.ptr a ((s.ptr a).andThen after) }, ?_, ?_, .inr ?_⟩
    · simp only [run, hpc, rd_of_lt hw, wr_of_lt hw, Option.bind_eq_bind, Option.bind_some, if_neg hc]
      rfl
    · refine hs.resume ha hinit SharedPoolPtr.plain_andThen (.inr ?_)
        (SharedPoolPtr.dead_andThen (hs.live ha))
      rw [SharedPoolPtr.taken_andThen, htaken]
    · have hlose : s.refs.held = total SharedPoolPtr.held (Function.update s.ptr a
          ((s.ptr a).andThen after)) + {h} :=
        total_lose (by rw [hheld, SharedPoolPtr.held_andThen])
      refine (RefStep.drop hlose hc).of_eq
        (References.ext rfl rfl rfl (total_update_same ?_) rfl rfl)
      rw [SharedPoolPtr.kept_andThen, hkept]

theorem run_push (hN : N < 2 ^ 32) (hs : Shape Guarded s.lock s.ptr) (hx : s.refs.Exact) {h : Nat}
    {after : After ι} (hpc : (s.ptr a).pc = .push h after) :
    ∃ t, s.run a = some t ∧ Simulates Guarded Source s t := by
  have ha : (s.ptr a).pc ≠ .idle := by simp [hpc]
  have hheld : (s.ptr a).held = (s.ptr a).remaining after := by rw [SharedPoolPtr.held, hpc]
  have hkept : (s.ptr a).kept = {h} := by rw [SharedPoolPtr.kept, hpc]
  have hw : slotIndex h < N :=
    hx.inRange_kept (mem_kept (by rw [hkept]; exact Multiset.mem_singleton_self h))
  have hK : 1 ≤ stateCount := Nat.one_le_of_lt (hx.rep.state_lt _ hw)
  have hrep : s.set.Rep := hx.rep
  obtain ⟨set, hp, -, -⟩ := SparseSet.push_spec hrep hN hK hw
  refine ⟨{ s with
    set, pushed := upd s.pushed (slotIndex h) (s.pushed (slotIndex h) + 1),
    ptr := Function.update s.ptr a ((s.ptr a).andThen after) }, ?_, ?_, .inr ?_⟩
  · simp only [run, hpc, hp, Option.bind_eq_bind, Option.bind_some]
    rfl
  · refine hs.resume ha (by simp [hpc]) SharedPoolPtr.plain_andThen (.inr ?_)
      (SharedPoolPtr.dead_andThen (hs.live ha))
    rw [SharedPoolPtr.taken_andThen, hpc]
    rfl
  · have hlose : s.refs.kept = total SharedPoolPtr.kept (Function.update s.ptr a
        ((s.ptr a).andThen after)) + {h} :=
      total_lose (by rw [hkept, SharedPoolPtr.kept_andThen, zero_add])
    refine (RefStep.push hlose hp).of_eq (References.ext rfl rfl (total_update_same ?_) rfl rfl rfl)
    rw [SharedPoolPtr.held_andThen, hheld]

/-! ### The steps on the fields -/

/-- A step on the fields of the object itself. -/
theorem run_field (hs : Shape Guarded s.lock s.ptr) (p : SharedPoolPtr ι)
    (hrun : s.run a = some (s.put a p)) (ha : (s.ptr a).pc ≠ .idle)
    (hinit : ∀ h, (s.ptr a).pc ≠ .init h) (hlive : p.live = (s.ptr a).live)
    (hsound : p.Sound)
    (htaken : ∀ b, p.pc.taken = some b → (s.ptr a).pc.taken = some b ∧ p.Agrees (s.ptr b))
    (hsource : ∀ b, p.pc.source = some b → Guarded b →
      (s.ptr a).pc.source = some b ∧ p.Agrees (s.ptr b))
    (hheld : p.held = (s.ptr a).held) (hkept : p.kept = (s.ptr a).kept) :
    ∃ t, s.run a = some t ∧ Simulates Guarded Source s t := by
  refine ⟨_, hrun, ?_, .inl (refs_put hheld hkept)⟩
  refine hs.advance ha (fun x hx => .inr ⟨?_, hx⟩) (fun h => ?_) hsound htaken hsource
  · rintro rfl
    obtain ⟨h, hh⟩ := hs.lock x hx
    exact hinit h hh
  · exact absurd ((hs.live ha).symm.trans (hlive.symm.trans h)) (by decide)

theorem run_copyPool (hs : Shape Guarded s.lock s.ptr) {other : ι} {current : Option Nat}
    (hpc : (s.ptr a).pc = .copyPool other current) :
    ∃ t, s.run a = some t ∧ Simulates Guarded Source s t := by
  refine run_field hs { s.ptr a with
    pool := (s.ptr other).pool, pc := .copyHandle other current } ?_ ?_ ?_ rfl trivial nofun
    (fun b hb _ => ?_) ?_ ?_
  · simp only [run, hpc]
  · simp [hpc]
  · simp [hpc]
  · cases hb
    exact ⟨by rw [hpc]; rfl, rfl⟩
  · simp only [SharedPoolPtr.held, hpc]
  · simp only [SharedPoolPtr.kept, hpc]

theorem run_copyHandle (hs : Shape Guarded s.lock s.ptr) {other : ι} {current : Option Nat}
    (hpc : (s.ptr a).pc = .copyHandle other current) :
    ∃ t, s.run a = some t ∧ Simulates Guarded Source s t := by
  have hsrc : (s.ptr a).pc.source = some other := by rw [hpc]; rfl
  refine run_field hs { s.ptr a with
    handle := (s.ptr other).handle, pc := .addRef other current } ?_ ?_ ?_ rfl trivial nofun
    (fun b hb hg => ?_) ?_ ?_
  · simp only [run, hpc]
  · simp [hpc]
  · simp [hpc]
  · cases hb
    obtain ⟨-, -, hag⟩ := hs.uses a other (.inr ⟨hsrc, hg⟩)
    rw [SharedPoolPtr.Agrees, hpc] at hag
    exact ⟨hsrc, hag, rfl⟩
  · simp only [SharedPoolPtr.held, hpc]
  · simp only [SharedPoolPtr.kept, hpc]

theorem run_takePool (hs : Shape Guarded s.lock s.ptr) {other : ι}
    (hpc : (s.ptr a).pc = .takePool other) :
    ∃ t, s.run a = some t ∧ Simulates Guarded Source s t := by
  refine run_field hs { s.ptr a with
    pool := (s.ptr other).pool, pc := .takeHandle other } ?_ ?_ ?_ rfl trivial
    (fun b hb => ?_) nofun ?_ ?_
  · simp only [run, hpc]
  · simp [hpc]
  · simp [hpc]
  · cases hb
    exact ⟨by rw [hpc]; rfl, rfl⟩
  · simp only [SharedPoolPtr.held, hpc]
  · simp only [SharedPoolPtr.kept, hpc]

theorem run_takeHandle (hs : Shape Guarded s.lock s.ptr) {other : ι}
    (hpc : (s.ptr a).pc = .takeHandle other) :
    ∃ t, s.run a = some t ∧ Simulates Guarded Source s t := by
  have htaken : (s.ptr a).pc.taken = some other := by rw [hpc]; rfl
  refine run_field hs { s.ptr a with
    handle := (s.ptr other).handle, pc := .leavePool other } ?_ ?_ ?_ rfl trivial
    (fun b hb => ?_) nofun ?_ ?_
  · simp only [run, hpc]
  · simp [hpc]
  · simp [hpc]
  · cases hb
    obtain ⟨-, -, hag⟩ := hs.uses a other (.inl htaken)
    rw [SharedPoolPtr.Agrees, hpc] at hag
    exact ⟨htaken, hag, rfl⟩
  · simp only [SharedPoolPtr.held, hpc]
  · simp only [SharedPoolPtr.kept, hpc]

theorem run_clearPool (hs : Shape Guarded s.lock s.ptr) (hpc : (s.ptr a).pc = .clearPool) :
    ∃ t, s.run a = some t ∧ Simulates Guarded Source s t := by
  refine run_field hs { s.ptr a with pool := false, pc := .clearHandle } ?_ ?_ ?_ rfl rfl nofun
    nofun ?_ ?_
  · simp only [run, hpc]
  · simp [hpc]
  · simp [hpc]
  · simp only [SharedPoolPtr.held, hpc]
  · simp only [SharedPoolPtr.kept, hpc]

theorem run_clearHandle (hs : Shape Guarded s.lock s.ptr) (hpc : (s.ptr a).pc = .clearHandle) :
    ∃ t, s.run a = some t ∧ Simulates Guarded Source s t := by
  have hpool : (s.ptr a).pool = false := by
    have h := hs.sound a
    rwa [SharedPoolPtr.Sound, hpc] at h
  refine run_field hs { s.ptr a with handle := kInvalidHandle, pc := .idle } ?_ ?_ ?_ rfl trivial
    (fun _ h => by cases h) (fun _ h => by cases h) ?_ ?_
  · simp only [run, hpc]
  · simp [hpc]
  · simp [hpc]
  · simp only [SharedPoolPtr.held, hpc, SharedPoolPtr.own, hpool, Bool.false_eq_true, if_false]
  · simp only [SharedPoolPtr.kept, hpc]

/-- `other.pool_ = nullptr` hands the reference over. -/
theorem run_leavePool (hs : Shape Guarded s.lock s.ptr) {other : ι}
    (hpc : (s.ptr a).pc = .leavePool other) :
    ∃ t, s.run a = some t ∧ Simulates Guarded Source s t := by
  have htaken : (s.ptr a).pc.taken = some other := by rw [hpc]; rfl
  obtain ⟨hne, hidle, hag⟩ := hs.uses a other (.inl htaken)
  rw [SharedPoolPtr.Agrees, hpc] at hag
  have ha : (s.ptr a).pc ≠ .idle := by simp [hpc]
  refine ⟨_, by simp only [run, hpc]; rfl, ?_, .inl ?_⟩
  · refine hs.hand htaken (by simp [hpc]) (fun h => ?_) trivial (fun h => ?_) hidle
      (fun c hc => ?_) rfl
    · exact absurd ((hs.live ha).symm.trans h) (by decide)
    · rw [hs.dead other h]
      rfl
    · cases hc
      exact ⟨rfl, rfl⟩
  · have hleft : ({ s.ptr other with pool := false } : SharedPoolPtr ι).held = 0 := by
      simp only [SharedPoolPtr.held, hidle, SharedPoolPtr.own, Bool.false_eq_true, if_false]
    have hlose : total SharedPoolPtr.held s.ptr = total SharedPoolPtr.held (Function.update s.ptr
        other { s.ptr other with pool := false }) + (s.ptr other).own :=
      total_lose (by rw [hleft, zero_add, SharedPoolPtr.held_idle hidle])
    refine References.ext rfl rfl ((total_gain ?_).trans hlose.symm)
      ((total_update_same ?_).trans (total_update_same ?_)) rfl rfl
    · rw [put_other hne.symm]
      simp only [SharedPoolPtr.held, hpc, SharedPoolPtr.own, hag.1, hag.2, zero_add]
    · rw [put_other hne.symm]
      simp only [SharedPoolPtr.kept, hpc]
    · simp only [SharedPoolPtr.kept, hidle]

theorem run_leaveHandle (hs : Shape Guarded s.lock s.ptr) {other : ι}
    (hpc : (s.ptr a).pc = .leaveHandle other) :
    ∃ t, s.run a = some t ∧ Simulates Guarded Source s t := by
  have htaken : (s.ptr a).pc.taken = some other := by rw [hpc]; rfl
  obtain ⟨hne, hidle, hag⟩ := hs.uses a other (.inl htaken)
  rw [SharedPoolPtr.Agrees, hpc] at hag
  have ha : (s.ptr a).pc ≠ .idle := by simp [hpc]
  refine ⟨_, by simp only [run, hpc]; rfl, ?_, .inl ?_⟩
  · refine hs.hand htaken (by simp [hpc]) (fun h => ?_) trivial (fun h => ?_) hidle nofun rfl
    · exact absurd ((hs.live ha).symm.trans h) (by decide)
    · rw [hs.dead other h]
      rfl
  · refine References.ext rfl rfl ((total_update_same ?_).trans (total_update_same ?_))
      ((total_update_same ?_).trans (total_update_same ?_)) rfl rfl
    · rw [put_other hne.symm]
      simp only [SharedPoolPtr.held, hpc, SharedPoolPtr.own]
    · simp only [SharedPoolPtr.held, hidle, SharedPoolPtr.own, hag, Bool.false_eq_true, if_false]
    · rw [put_other hne.symm]
      simp only [SharedPoolPtr.kept, hpc]
    · simp only [SharedPoolPtr.kept, hidle]

/-! ### Operations start -/

/-- An operation without a source. -/
theorem start_plain (hs : Shape Guarded s.lock s.ptr) (hfree : Free Guarded s.ptr a)
    {p : SharedPoolPtr ι} (hp : p.Plain) (htaken : p.pc.taken = none)
    (hdead : p.live = false → p = .dead) (hheld : p.held = (s.ptr a).own) (hkept : p.kept = 0) :
    Simulates Guarded Source s (s.put a p) := by
  refine ⟨hs.start hfree hdead hp.sound (fun b hb => ?_) fun b c => ⟨fun hb => ?_, fun hb => ?_⟩,
    .inl (refs_put (hheld.trans hfree.held.symm) (hkept.trans (SharedPoolPtr.kept_idle hfree.1).symm))⟩
  · rw [Uses, htaken, hp.source] at hb
    rcases hb with hb | ⟨hb, -⟩ <;> cases hb
  · rw [htaken] at hb
    cases hb
  · rw [Uses, htaken, hp.source] at hb
    rcases hb with hb | ⟨hb, -⟩ <;> cases hb

/-- A copy from `other`. -/
theorem start_copy (hs : Shape Guarded s.lock s.ptr) (hfree : Free Guarded s.ptr a) {other : ι}
    (hread : Readable Guarded s.ptr other) (hne : other ≠ a) {p : SharedPoolPtr ι}
    {current : Option Nat} (hpc : p.pc = .copyPool other current) (hlive : p.live = true)
    (hsaved : saved current = (s.ptr a).own) : Simulates Guarded Source s (s.put a p) := by
  have huses : ∀ b, Uses Guarded p b → b = other ∧ Guarded other := by
    rintro b (hb | ⟨hb, hg⟩)
    · rw [hpc] at hb
      cases hb
    · rw [hpc] at hb
      cases hb
      exact ⟨rfl, hg⟩
  have hheld : p.held = saved current := by rw [SharedPoolPtr.held, hpc]
  have hkept : p.kept = 0 := by rw [SharedPoolPtr.kept, hpc]
  refine ⟨hs.start hfree (fun h => ?_) ?_ (fun b hb => ?_) fun b c => ⟨fun hb => ?_, fun hb => ?_⟩,
    .inl (refs_put ?_ (hkept.trans (SharedPoolPtr.kept_idle hfree.1).symm))⟩
  · rw [hlive] at h
    cases h
  · rw [SharedPoolPtr.Sound, hpc]
    trivial
  · obtain ⟨rfl, hg⟩ := huses b hb
    refine ⟨hne, (hread.2 hg).1, ?_⟩
    rw [SharedPoolPtr.Agrees, hpc]
    trivial
  · rw [hpc] at hb
    cases hb
  · obtain ⟨rfl, hg⟩ := huses b hb
    exact (hread.2 hg).2 c
  · rw [hheld, hsaved, hfree.held]

/-- A move from `other`. -/
theorem start_move (hs : Shape Guarded s.lock s.ptr) (hfree : Free Guarded s.ptr a) {other : ι}
    (hother : Free Guarded s.ptr other) (hne : other ≠ a) {p : SharedPoolPtr ι} (hp : p.Plain)
    (htaken : p.pc.taken = some other) (hdead : p.live = false → p = .dead)
    (hheld : p.held = (s.ptr a).own) (hkept : p.kept = 0) :
    Simulates Guarded Source s (s.put a p) := by
  have huses : ∀ b, Uses Guarded p b → b = other := by
    rintro b (hb | ⟨hb, -⟩)
    · exact Option.some.inj (hb.symm.trans htaken)
    · rw [hp.source] at hb
      cases hb
  refine ⟨hs.start hfree hdead hp.sound (fun b hb => ?_) fun b c => ⟨fun hb hu => ?_, fun hb hu => ?_⟩,
    .inl (refs_put (hheld.trans hfree.held.symm) (hkept.trans (SharedPoolPtr.kept_idle hfree.1).symm))⟩
  · rw [huses b hb]
    exact ⟨hne, hother.1, hp.agrees _⟩
  · rw [huses b (.inl hb)] at hu
    exact hother.2 c hu
  · rw [huses b hb] at hu
    exact hother.2 c (.inl hu)

/-! ### The refinement -/

/-- A copy that is about to count its reference has a source for it. -/
def Covered (Source : References N stateCount → Nat → Prop) (s : Pointers ι N stateCount) :
    Event ι → Prop
  | .run a => ∀ other current, (s.ptr a).pc = .addRef other current → (s.ptr a).pool = true →
      slotIndex (s.ptr a).handle < N ∧ Source s.refs (s.ptr a).handle
  | _ => True

theorem run_simulates (hN : N < 2 ^ 32) (hs : Shape Guarded s.lock s.ptr) (hx : s.refs.Exact)
    (ha : (s.ptr a).pc ≠ .idle) (hc : Covered Source s (.run a)) :
    ∃ t, s.run a = some t ∧ Simulates Guarded Source s t := by
  cases hpc : (s.ptr a).pc with
  | idle => exact absurd hpc ha
  | acquire state => exact run_acquire hN hs hx.rep hpc
  | init h => exact run_init hs hx hpc
  | construct h => exact run_construct hs hx hpc
  | copyPool other current => exact run_copyPool hs hpc
  | copyHandle other current => exact run_copyHandle hs hpc
  | addRef other current => exact run_addRef hs hpc (hc other current hpc)
  | release h after => exact run_release hs hx hpc
  | push h after => exact run_push hN hs hx hpc
  | takePool other => exact run_takePool hs hpc
  | takeHandle other => exact run_takeHandle hs hpc
  | leavePool other => exact run_leavePool hs hpc
  | leaveHandle other => exact run_leaveHandle hs hpc
  | clearPool => exact run_clearPool hs hpc
  | clearHandle => exact run_clearHandle hs hpc

/-- **The objects refine the books.**  A step that the callers may take is possible, and it is a
step on the books or changes nothing there. -/
theorem step_simulates (hN : N < 2 ^ 32) (hs : Shape Guarded s.lock s.ptr) (hx : s.refs.Exact)
    {e : Event ι} (hl : Legit Guarded s e) (hc : Covered Source s e) :
    ∃ t, s.step e = some t ∧ Simulates Guarded Source s t := by
  cases e with
  | null a =>
      obtain ⟨hfree, hdead⟩ := hl
      refine ⟨_, rfl, start_plain hs hfree ⟨rfl, fun _ => trivial, trivial⟩ rfl nofun ?_ rfl⟩
      rw [hs.own_dead hdead]
      rfl
  | acquire a state =>
      obtain ⟨hfree, hdead, h0⟩ := hl
      refine ⟨_, rfl, start_plain hs hfree ⟨rfl, fun _ => trivial, h0⟩ rfl nofun ?_ rfl⟩
      rw [hs.own_dead hdead]
      rfl
  | copy a other =>
      obtain ⟨hfree, hdead, hread⟩ := hl
      refine ⟨_, rfl, start_copy hs hfree hread ?_ rfl rfl ?_⟩
      · rintro rfl
        exact absurd (hdead.symm.trans hread.1) (by decide)
      · rw [hs.own_dead hdead]
        rfl
  | copyAssign a other =>
      obtain ⟨hfree, hlive, hread⟩ := hl
      by_cases hself : a = other
      · exact ⟨s, by rw [step, if_pos hself], hs, .inl rfl⟩
      · refine ⟨s.put a { s.ptr a with pc := .copyPool other (s.ptr a).current }, ?_,
          start_copy hs hfree hread (Ne.symm hself) rfl hlive (SharedPoolPtr.own_current _)⟩
        rw [step, if_neg hself]
  | move a other =>
      obtain ⟨hfree, hdead, hother, hlive⟩ := hl
      refine ⟨_, rfl, start_move hs hfree hother ?_ ⟨rfl, fun _ => trivial, trivial⟩ rfl nofun ?_ rfl⟩
      · rintro rfl
        exact absurd (hdead.symm.trans hlive) (by decide)
      · rw [hs.own_dead hdead]
        rfl
  | moveAssign a other =>
      obtain ⟨hfree, hlive, hother, -⟩ := hl
      by_cases hself : a = other
      · exact ⟨s, by rw [step, if_pos hself], hs, .inl rfl⟩
      · have hdone : After.take other ≠ .done := nofun
        refine ⟨s.put a ((s.ptr a).releaseThen (.take other)), ?_,
          start_move hs hfree hother (Ne.symm hself) SharedPoolPtr.plain_releaseThen
            SharedPoolPtr.taken_releaseThen (SharedPoolPtr.dead_releaseThen hlive)
            (SharedPoolPtr.held_releaseThen _ hdone) (SharedPoolPtr.kept_releaseThen _ _)⟩
        rw [step, if_neg hself]
  | reset a =>
      obtain ⟨hfree, hlive⟩ := hl
      have hdone : After.reset ≠ (.done : After ι) := nofun
      exact ⟨_, rfl, start_plain hs hfree SharedPoolPtr.plain_releaseThen
        SharedPoolPtr.taken_releaseThen (SharedPoolPtr.dead_releaseThen hlive)
        (SharedPoolPtr.held_releaseThen _ hdone) (SharedPoolPtr.kept_releaseThen _ _)⟩
  | destroy a =>
      obtain ⟨hfree, hlive⟩ := hl
      have hdone : After.destroy ≠ (.done : After ι) := nofun
      exact ⟨_, rfl, start_plain hs hfree SharedPoolPtr.plain_releaseThen
        SharedPoolPtr.taken_releaseThen (SharedPoolPtr.dead_releaseThen hlive)
        (SharedPoolPtr.held_releaseThen _ hdone) (SharedPoolPtr.kept_releaseThen _ _)⟩
  | run a => exact run_simulates hN hs hx hl.1 hc

/-- A step keeps the books exact, if copies count live slots only. -/
theorem step_exact (hN : N < 2 ^ 32) (hM : Fintype.card ι ≤ 2 ^ 60)
    (hlive : ∀ r : References N stateCount, r.Exact → ∀ h, Source r h → Live r h)
    (hs : Shape Guarded s.lock s.ptr) (hx : s.refs.Exact) {e : Event ι} (hl : Legit Guarded s e)
    (hc : Covered Source s e) (h : s.step e = some t) :
    Shape Guarded t.lock t.ptr ∧ t.refs.Exact ∧
      (t.refs = s.refs ∨ RefStep Source s.refs t.refs) := by
  obtain ⟨t', ht, hshape, hrefs⟩ := step_simulates hN hs hx hl hc
  rw [h] at ht
  cases ht
  refine ⟨hshape, ?_, hrefs⟩
  have hcard : s.refs.held.card ≤ Fintype.card ι * 2 := card_total_le SharedPoolPtr.card_held s.ptr
  rcases hrefs with e | st
  · rw [e]
    exact hx
  · exact st.exact hN hx (hlive _ hx) (by omega)

end Pointers

end IocpServer
