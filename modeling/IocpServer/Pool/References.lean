import IocpServer.Pool.Partition
import Mathlib.Algebra.Order.Group.Multiset
import Mathlib.Data.Finset.Card
import Mathlib.Data.Finset.Range

/-!
# Pool — References

What the reference counts of a `SparsePool` are for.  Two bags of handles: `held`, the references
that have been counted, and `kept`, the slots on their way, popped but without a reference yet or
without their last one but not pushed yet.  A slot is out of state `0` as long as either bag names
it, and `refCount` says how often `held` does.

* `RefStep.exact`: the six steps that touch a count or a slot keep the books exact.
* `RefStep.current`: when only held handles are shared, every handle stays current.
* `RefStep.pushed`: a slot is pushed when nothing holds it.
* `Exact.card_eq_iff`: without sharing there are as many handles as slots in use.
-/

namespace IocpServer

/-- How many of the handles name slot `i`. -/
def naming (i : Nat) (H : Multiset Nat) : Nat := H.countP (slotIndex · = i)

@[simp] theorem naming_zero (i : Nat) : naming i 0 = 0 := Multiset.countP_zero _

@[simp] theorem naming_add (i : Nat) (H K : Multiset Nat) :
    naming i (H + K) = naming i H + naming i K :=
  Multiset.countP_add _ H K

theorem naming_singleton (i h : Nat) : naming i {h} = if slotIndex h = i then 1 else 0 := by
  rw [naming, ← Multiset.cons_zero, Multiset.countP_cons, Multiset.countP_zero, Nat.zero_add]

theorem naming_pos {i : Nat} {H : Multiset Nat} : 0 < naming i H ↔ ∃ h ∈ H, slotIndex h = i :=
  Multiset.countP_pos

theorem naming_le_card (i : Nat) (H : Multiset Nat) : naming i H ≤ H.card :=
  Multiset.countP_le_card _ H

/-- One slot's books: its state, generation and `refCount_`, how often it is held and kept, and how
often it has been popped and pushed. -/
structure Tally (state generation count held kept acquired pushed : Nat) : Prop where
  count_eq : count = held
  kept_once : kept = 0 ∨ kept = 1 ∧ held = 0
  free_iff : state = 0 ↔ held = 0 ∧ kept = 0
  balance : acquired = pushed + if state = 0 then 0 else 1
  turn : generation = u32 pushed

namespace Tally

variable {st g c h k a p : Nat}

theorem pop {st' : Nat} (t : Tally st g c h k a p) (h0 : st = 0) (h1 : st' ≠ 0) :
    Tally st' g c h (k + 1) (a + 1) p := by
  obtain ⟨hh, hk⟩ := t.free_iff.mp h0
  refine ⟨t.count_eq, .inr ⟨by rw [hk], hh⟩, ⟨fun e => absurd e h1, ?_⟩, ?_, t.turn⟩
  · rintro ⟨-, e⟩
    omega
  · have hb := t.balance
    rw [if_pos h0] at hb
    rw [if_neg h1, hb]

theorem first (t : Tally st g c h (k + 1) a p) : Tally st g (u64 (c + 1)) (h + 1) k a p := by
  obtain ⟨hk, hh⟩ : k + 1 = 1 ∧ h = 0 := by
    rcases t.kept_once with e | e
    · omega
    · exact e
  have hst : st ≠ 0 := fun e => by have := (t.free_iff.mp e).2; omega
  have hc : c = 0 := t.count_eq.trans hh
  refine ⟨?_, .inl (by omega), ⟨fun e => absurd e hst, fun e => by omega⟩, t.balance, t.turn⟩
  rw [hc, hh]
  decide

theorem share (t : Tally st g c h k a p) (h0 : c ≠ 0) (hlt : h + 1 < 2 ^ 64) :
    Tally st g (u64 (c + 1)) (h + 1) k a p := by
  have hc := t.count_eq
  have hst : st ≠ 0 := fun e => h0 (hc.trans (t.free_iff.mp e).1)
  refine ⟨by rw [hc, u64_of_lt hlt], .inl ?_, ⟨fun e => absurd e hst, fun e => by omega⟩,
    t.balance, t.turn⟩
  rcases t.kept_once with e | e
  · exact e
  · omega

theorem drop (t : Tally st g c (h + 1) k a p) (hc : c ≠ 1) (hlt : h + 1 < 2 ^ 64) :
    Tally st g (sub64 c 1) h k a p := by
  have hc' := t.count_eq
  have hk : k = 0 := by
    rcases t.kept_once with e | e
    · exact e
    · omega
  have hst : st ≠ 0 := fun e => by have := (t.free_iff.mp e).1; omega
  refine ⟨?_, .inl hk, ⟨fun e => absurd e hst, fun e => by omega⟩, t.balance, t.turn⟩
  rw [sub64_of_le (by omega) (by omega), hc', Nat.add_sub_cancel]

theorem last (t : Tally st g c (h + 1) k a p) (hc : c = 1) :
    Tally st g (sub64 c 1) h (k + 1) a p := by
  have hh : h = 0 := by have := t.count_eq; omega
  have hk : k = 0 := by
    rcases t.kept_once with e | e
    · exact e
    · omega
  have hst : st ≠ 0 := fun e => by have := (t.free_iff.mp e).1; omega
  refine ⟨?_, .inr ⟨by rw [hk], hh⟩, ⟨fun e => absurd e hst, fun e => by omega⟩, t.balance,
    t.turn⟩
  rw [hc, hh]
  decide

theorem push (t : Tally st g c h (k + 1) a p) :
    Tally 0 (u32 (g + 1)) c h k a (p + 1) := by
  obtain ⟨hk, hh⟩ : k + 1 = 1 ∧ h = 0 := by
    rcases t.kept_once with e | e
    · omega
    · exact e
  have hst : st ≠ 0 := fun e => by have := (t.free_iff.mp e).2; omega
  refine ⟨t.count_eq, .inl (by omega), ⟨fun _ => ⟨hh, by omega⟩, fun _ => rfl⟩, ?_, ?_⟩
  · have hb := t.balance
    rw [if_neg hst] at hb
    rw [if_pos rfl, hb]
  · rw [t.turn, u32, u32, u32, Nat.mod_add_mod]

end Tally

/-- The slots of a pool and the references to them.  `acquired` and `pushed` count the pops and
pushes of each slot so far. -/
@[ext] structure References (N stateCount : Nat) where
  set : SparseSet N stateCount
  refCount : Nat → Nat
  held : Multiset Nat
  kept : Multiset Nat
  acquired : Nat → Nat
  pushed : Nat → Nat

namespace References

variable {N stateCount : Nat}

/-- **The books are exact.** -/
structure Exact (r : References N stateCount) : Prop where
  rep : r.set.Rep
  inRange : ∀ h ∈ r.held + r.kept, slotIndex h < N
  tally : ∀ i < N, Tally (r.set.cells i).state (r.set.cells i).generation (r.refCount i)
    (naming i r.held) (naming i r.kept) (r.acquired i) (r.pushed i)

/-- Every handle in use is its slot's current one. -/
def Current (r : References N stateCount) : Prop :=
  ∀ h ∈ r.held + r.kept, h = r.set.handle (slotIndex h)

/-- One step on a count or on a slot.  `Source r h` says from which handles a reference may be
copied. -/
inductive RefStep (Source : References N stateCount → Nat → Prop) (r : References N stateCount) :
    References N stateCount → Prop where
  | pop {state h : Nat} {set : SparseSet N stateCount} (h0 : state ≠ 0)
      (hp : r.set.pop state = some (set, h)) (hv : set.isValid h = true) :
      RefStep Source r { r with
        set, kept := r.kept + {h}, acquired := upd r.acquired (slotIndex h) (r.acquired (slotIndex h) + 1) }
  | first {h : Nat} {K : Multiset Nat} (hk : r.kept = K + {h}) :
      RefStep Source r { r with
        refCount := upd r.refCount (slotIndex h) (u64 (r.refCount (slotIndex h) + 1)),
        held := r.held + {h}, kept := K }
  | share {h : Nat} (hs : Source r h) :
      RefStep Source r { r with
        refCount := upd r.refCount (slotIndex h) (u64 (r.refCount (slotIndex h) + 1)),
        held := r.held + {h} }
  | drop {h : Nat} {H : Multiset Nat} (hh : r.held = H + {h}) (hc : r.refCount (slotIndex h) ≠ 1) :
      RefStep Source r { r with
        refCount := upd r.refCount (slotIndex h) (sub64 (r.refCount (slotIndex h)) 1), held := H }
  | last {h : Nat} {H : Multiset Nat} (hh : r.held = H + {h}) (hc : r.refCount (slotIndex h) = 1) :
      RefStep Source r { r with
        refCount := upd r.refCount (slotIndex h) (sub64 (r.refCount (slotIndex h)) 1), held := H,
        kept := r.kept + {h} }
  | push {h : Nat} {K : Multiset Nat} {set : SparseSet N stateCount} (hk : r.kept = K + {h})
      (hp : r.set.push h = some set) :
      RefStep Source r { r with
        set, kept := K, pushed := upd r.pushed (slotIndex h) (r.pushed (slotIndex h) + 1) }

theorem RefStep.of_eq {Source : References N stateCount → Nat → Prop} {r r' u : References N stateCount}
    (st : RefStep Source r u) (h : r' = u) : RefStep Source r r' :=
  h ▸ st

/-- A handle copied from a counted reference. -/
def Counted (r : References N stateCount) (h : Nat) : Prop := h ∈ r.held

/-- A handle of a slot whose count is not zero. -/
def Live (r : References N stateCount) (h : Nat) : Prop :=
  slotIndex h < N ∧ r.refCount (slotIndex h) ≠ 0

variable {r r' : References N stateCount} {Source : References N stateCount → Nat → Prop}

theorem naming_self (h : Nat) (H : Multiset Nat) :
    naming (slotIndex h) (H + {h}) = naming (slotIndex h) H + 1 := by
  rw [naming_add, naming_singleton, if_pos rfl]

theorem naming_other {h i : Nat} (hi : i ≠ slotIndex h) (H : Multiset Nat) :
    naming i (H + {h}) = naming i H := by
  rw [naming_add, naming_singleton, if_neg (Ne.symm hi), Nat.add_zero]

/-- A step that leaves every slot but `w` alone. -/
theorem Exact.of_slot (hx : Exact r) {w : Nat} (hrep : r'.set.Rep)
    (hin : ∀ h ∈ r'.held + r'.kept, slotIndex h < N)
    (hw : w < N → Tally (r'.set.cells w).state (r'.set.cells w).generation (r'.refCount w)
      (naming w r'.held) (naming w r'.kept) (r'.acquired w) (r'.pushed w))
    (hother : ∀ i ≠ w, r'.set.cells i = r.set.cells i ∧ r'.refCount i = r.refCount i ∧
      naming i r'.held = naming i r.held ∧ naming i r'.kept = naming i r.kept ∧
      r'.acquired i = r.acquired i ∧ r'.pushed i = r.pushed i) : Exact r' := by
  refine ⟨hrep, hin, fun i hi => ?_⟩
  by_cases e : i = w
  · subst e
    exact hw hi
  · obtain ⟨h₁, h₂, h₃, h₄, h₅, h₆⟩ := hother i e
    rw [h₁, h₂, h₃, h₄, h₅, h₆]
    exact hx.tally i hi

theorem Exact.inRange_held (hx : Exact r) {h : Nat} (hh : h ∈ r.held) : slotIndex h < N :=
  hx.inRange h (Multiset.mem_add.mpr (.inl hh))

theorem Exact.inRange_kept (hx : Exact r) {h : Nat} (hh : h ∈ r.kept) : slotIndex h < N :=
  hx.inRange h (Multiset.mem_add.mpr (.inr hh))

theorem mem_add_singleton (H : Multiset Nat) (h : Nat) : h ∈ H + {h} :=
  Multiset.mem_add.mpr (.inr (Multiset.mem_singleton_self h))

/-- When no slot is named twice, as many handles are in use as slots. -/
theorem Exact.card_eq (hx : Exact r) (honce : ∀ i, naming i (r.held + r.kept) ≤ 1) :
    (r.held + r.kept).card = ((Finset.range N).filter fun w => (r.set.cells w).state ≠ 0).card := by
  have hcount : ∀ w, ((r.held + r.kept).map slotIndex).count w = naming w (r.held + r.kept) := by
    intro w
    rw [Multiset.count_map, naming, Multiset.countP_eq_card_filter]
    simp only [eq_comm]
  have hnodup : ((r.held + r.kept).map slotIndex).Nodup := by
    rw [Multiset.nodup_iff_count_le_one]
    intro w
    rw [hcount]
    exact honce w
  have hslots : (r.held + r.kept).map slotIndex =
      ((Finset.range N).filter fun w => (r.set.cells w).state ≠ 0).val := by
    refine (Multiset.Nodup.ext hnodup (Finset.nodup _)).mpr fun w => ?_
    rw [Finset.mem_val, Finset.mem_filter, Finset.mem_range, Multiset.mem_map, ← naming_pos]
    constructor
    · intro hpos
      obtain ⟨h, hh, hw⟩ := naming_pos.mp hpos
      have hlt : w < N := hw ▸ hx.inRange h hh
      refine ⟨hlt, fun h0 => ?_⟩
      have hfree := (hx.tally w hlt).free_iff.mp h0
      rw [naming_add] at hpos
      omega
    · rintro ⟨hlt, h0⟩
      have hbusy := mt (hx.tally w hlt).free_iff.mpr h0
      rw [naming_add]
      omega
  rw [← Multiset.card_map slotIndex, hslots]
  rfl

/-- All slots are in use when there are as many handles. -/
theorem Exact.card_eq_iff (hx : Exact r) (honce : ∀ i, naming i (r.held + r.kept) ≤ 1) :
    (r.held + r.kept).card ≤ N ∧
      ((r.held + r.kept).card = N ↔ ∀ w < N, (r.set.cells w).state ≠ 0) := by
  rw [hx.card_eq honce]
  have hle := Finset.card_filter_le (Finset.range N) fun w => (r.set.cells w).state ≠ 0
  rw [Finset.card_range] at hle
  refine ⟨hle, ?_⟩
  have hiff := Finset.card_filter_eq_iff (s := Finset.range N) (p := fun w => (r.set.cells w).state ≠ 0)
  rw [Finset.card_range] at hiff
  rw [hiff]
  simp only [Finset.mem_range]

/-- A held handle is live. -/
theorem Exact.live (hx : Exact r) {h : Nat} (hh : h ∈ r.held) : Live r h := by
  refine ⟨hx.inRange_held hh, fun h0 => ?_⟩
  have hc := (hx.tally _ (hx.inRange_held hh)).count_eq
  have hpos : 0 < naming (slotIndex h) r.held := naming_pos.mpr ⟨h, hh, rfl⟩
  omega

/-- A valid handle that `Pop` returns is that of a slot in state `0`. -/
theorem Exact.popped (hx : Exact r) (hN : N < 2 ^ 32) {state h : Nat} {set : SparseSet N stateCount}
    (hp : r.set.pop state = some (set, h)) (hv : set.isValid h = true) :
    ∃ w, w < N ∧ (r.set.cells w).state = 0 ∧ h = r.set.handle w ∧ set.Rep ∧
      set.cells = upd r.set.cells w ((r.set.cells w).move state) := by
  have hvalid : h ≠ kInvalidHandle := by
    rintro rfl
    rw [SparseSet.isValid_invalid hN] at hv
    cases hv
  have hs : state < stateCount := by
    by_contra hge
    rw [SparseSet.pop_invalid (not_lt.mp hge)] at hp
    cases hp
    exact hvalid rfl
  rcases SparseSet.pop_spec hx.rep hN hs with ⟨w, set', hw, hst, hp', hrep, hcells⟩ | ⟨hp', -⟩
  · rw [hp] at hp'
    cases hp'
    exact ⟨w, hw, hst, rfl, hrep, hcells⟩
  · rw [hp] at hp'
    cases hp'
    exact absurd rfl hvalid

/-- **Every step keeps the books exact**, when references are copied from live handles only. -/
theorem RefStep.exact (hN : N < 2 ^ 32) (hx : Exact r) (hlive : ∀ h, Source r h → Live r h)
    (hcard : r.held.card + 1 < 2 ^ 64) (st : RefStep Source r r') : Exact r' := by
  cases st with
  | @pop state h set h0 hp hv =>
      obtain ⟨w, hw, hst, rfl, hrep, hcells⟩ := hx.popped hN hp hv
      have hidx : slotIndex (r.set.handle w) = w := hx.rep.slotIndex_handle hN hw
      refine hx.of_slot (w := w) hrep ?_ (fun _ => ?_) fun i hi => ?_
      · intro g hg
        dsimp only at hg
        rw [← add_assoc, Multiset.mem_add, Multiset.mem_singleton] at hg
        rcases hg with hg | rfl
        · exact hx.inRange g hg
        · rwa [hidx]
      · have ht := (hx.tally w hw).pop hst h0
        simpa only [hcells, hidx, upd_same, naming_add, naming_singleton, if_true,
          SparseSet.Cell.move_state, SparseSet.Cell.move_generation] using ht
      · simp only [hcells, hidx, upd_other hi, naming_add, naming_singleton, if_neg (Ne.symm hi),
          Nat.add_zero, true_and]
  | @first h K hk =>
      have hw : slotIndex h < N := hx.inRange_kept (hk ▸ mem_add_singleton K h)
      refine hx.of_slot (w := slotIndex h) hx.rep ?_ (fun _ => ?_) fun i hi => ?_
      · intro g hg
        refine hx.inRange g ?_
        rw [hk]
        rwa [add_right_comm, add_assoc] at hg
      · have ht := hx.tally _ hw
        rw [hk, naming_self] at ht
        simpa only [upd_same, naming_self] using ht.first
      · simp only [upd_other hi, hk, naming_other hi, true_and]
  | @share h hs =>
      obtain ⟨hw, h0⟩ := hlive h hs
      refine hx.of_slot (w := slotIndex h) hx.rep ?_ (fun _ => ?_) fun i hi => ?_
      · intro g hg
        dsimp only at hg
        rw [add_right_comm, Multiset.mem_add, Multiset.mem_singleton] at hg
        rcases hg with hg | rfl
        · exact hx.inRange g hg
        · exact hw
      · have hle := naming_le_card (slotIndex h) r.held
        have ht := (hx.tally _ hw).share h0 (by omega)
        simpa only [upd_same, naming_self] using ht
      · simp only [upd_other hi, naming_other hi, true_and]
  | @drop h H hh hc =>
      have hw : slotIndex h < N := hx.inRange_held (hh ▸ mem_add_singleton H h)
      refine hx.of_slot (w := slotIndex h) hx.rep ?_ (fun _ => ?_) fun i hi => ?_
      · intro g hg
        refine hx.inRange g ?_
        rw [hh, add_right_comm]
        exact Multiset.mem_add.mpr (.inl hg)
      · have hle := naming_le_card (slotIndex h) r.held
        have ht := hx.tally _ hw
        rw [hh] at hle hcard
        rw [naming_self] at hle
        rw [hh, naming_self] at ht
        simpa only [upd_same] using ht.drop hc (by omega)
      · simp only [upd_other hi, hh, naming_other hi, true_and]
  | @last h H hh hc =>
      have hw : slotIndex h < N := hx.inRange_held (hh ▸ mem_add_singleton H h)
      refine hx.of_slot (w := slotIndex h) hx.rep ?_ (fun _ => ?_) fun i hi => ?_
      · intro g hg
        refine hx.inRange g ?_
        rw [hh]
        rwa [← add_assoc, add_right_comm] at hg
      · have ht := hx.tally _ hw
        rw [hh, naming_self] at ht
        simpa only [upd_same, naming_self] using ht.last hc
      · simp only [upd_other hi, hh, naming_other hi, true_and]
  | @push h K set hk hp =>
      have hw : slotIndex h < N := hx.inRange_kept (hk ▸ mem_add_singleton K h)
      have hK : 1 ≤ stateCount := Nat.one_le_of_lt (hx.rep.state_lt _ hw)
      obtain ⟨set', hp', hrep, hcells⟩ := SparseSet.push_spec hx.rep hN hK hw
      rw [hp] at hp'
      cases hp'
      refine hx.of_slot (w := slotIndex h) hrep ?_ (fun _ => ?_) fun i hi => ?_
      · intro g hg
        refine hx.inRange g ?_
        rw [hk, ← add_assoc]
        exact Multiset.mem_add.mpr (.inl hg)
      · have ht := hx.tally _ hw
        rw [hk, naming_self] at ht
        simpa only [hcells, upd_same, SparseSet.Cell.recycle_state,
          SparseSet.Cell.recycle_generation] using ht.push
      · simp only [hcells, upd_other hi, hk, naming_other hi, true_and]

/-- **Handles stay current** when references are copied from counted ones. -/
theorem RefStep.current (hN : N < 2 ^ 32) (hx : Exact r) (hc : Current r)
    (st : RefStep Counted r r') : Current r' := by
  cases st with
  | @pop state h set h0 hp hv =>
      obtain ⟨w, hw, hst, rfl, hrep, hcells⟩ := hx.popped hN hp hv
      intro g hg
      dsimp only at hg ⊢
      rw [SparseSet.handle_move hcells]
      rw [← add_assoc, Multiset.mem_add, Multiset.mem_singleton] at hg
      rcases hg with hg | rfl
      · exact hc g hg
      · rw [hx.rep.slotIndex_handle hN hw]
  | @first h K hk =>
      intro g hg
      refine hc g ?_
      rw [hk]
      rwa [add_right_comm, add_assoc] at hg
  | @share h hs =>
      intro g hg
      dsimp only at hg
      rw [add_right_comm, Multiset.mem_add, Multiset.mem_singleton] at hg
      rcases hg with hg | rfl
      · exact hc g hg
      · exact hc g (Multiset.mem_add.mpr (.inl hs))
  | @drop h H hh hn =>
      intro g hg
      refine hc g ?_
      rw [hh, add_right_comm]
      exact Multiset.mem_add.mpr (.inl hg)
  | @last h H hh hn =>
      intro g hg
      refine hc g ?_
      rw [hh]
      rwa [← add_assoc, add_right_comm] at hg
  | @push h K set hk hp =>
      have hw : slotIndex h < N := hx.inRange_kept (hk ▸ mem_add_singleton K h)
      have hK : 1 ≤ stateCount := Nat.one_le_of_lt (hx.rep.state_lt _ hw)
      obtain ⟨set', hp', hrep, hcells⟩ := SparseSet.push_spec hx.rep hN hK hw
      rw [hp] at hp'
      cases hp'
      intro g hg
      dsimp only at hg ⊢
      have hg' : g ∈ r.held + r.kept := by
        rw [hk, ← add_assoc]
        exact Multiset.mem_add.mpr (.inl hg)
      -- the slot pushed is named by neither bag any more
      have hne : slotIndex g ≠ slotIndex h := by
        intro e
        have ht := (hx.tally _ hw).kept_once
        rw [hk, naming_self] at ht
        have hpos : 0 < naming (slotIndex h) (r.held + K) := naming_pos.mpr ⟨g, hg, e⟩
        rw [naming_add] at hpos
        omega
      rw [SparseSet.handle_other hcells hne]
      exact hc g hg'

/-- **A slot is pushed when nothing holds it**, once. -/
theorem RefStep.pushed (hx : Exact r) (st : RefStep Source r r') {i : Nat} (hi : i < N) :
    r'.pushed i = r.pushed i ∨ r'.pushed i = r.pushed i + 1 ∧ naming i r.held = 0 := by
  cases st with
  | pop | first | share | drop | last => exact .inl rfl
  | @push h K set hk hp =>
      by_cases e : i = slotIndex h
      · subst e
        have ht := (hx.tally _ hi).kept_once
        rw [hk, naming_self] at ht
        refine .inr ⟨upd_same _ _ _, ?_⟩
        rcases ht with ht | ht
        · omega
        · exact ht.2
      · exact .inl (upd_other e _ _)

/-- No slot in use and no reference. -/
def empty (N stateCount : Nat) : References N stateCount :=
  ⟨.new N stateCount, fun _ => 0, 0, 0, fun _ => 0, fun _ => 0⟩

theorem empty_exact (hN : N < 2 ^ 32) (hK : 1 ≤ stateCount) : Exact (empty N stateCount) := by
  refine ⟨SparseSet.new_rep hN hK, fun h hh => ?_, fun i _ => ?_⟩
  · simp [empty] at hh
  · exact ⟨(naming_zero i).symm, .inl (naming_zero i), ⟨fun _ => ⟨naming_zero i, naming_zero i⟩,
      fun _ => rfl⟩, rfl, rfl⟩

theorem empty_current : Current (empty N stateCount) := by
  intro h hh
  simp [empty] at hh

end References

end IocpServer
