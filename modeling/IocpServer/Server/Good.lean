import IocpServer.Server.Steps

/-!
# Server — Good

The invariant of the engine on its runs.

* `SeatStep.slot`, `Covered.step`: a step of a slot leaves instructions about that slot, and the
  thread keeps the references it needs.
* `Good.seat`: the slot that takes a step keeps its invariant, and no other slot's code changes.
* `Good.step`, `run_good`: so do all slots, in every run.
-/

namespace IocpServer

variable {w h : Nat} {v v' : Seat} {a : Act} {is is' l : List Instr}

theorem slot_after (w : Nat) (p : Purpose) (b : Bool) : ∀ i ∈ p.after w b, i.slot = some w := by
  cases p with
  | welcome k | firstRecv k => cases k <;> cases b <;> simp [Purpose.after, Instr.slot]
  | _ => cases b <;> simp [Purpose.after, Instr.slot]

theorem slot_last (v : Seat) {p : Option Nat} (hw : slotIndex h = w)
    (hn : ∀ i ∈ v.last p, i.Names h) : ∀ i ∈ v.last p, i.slot = some w := by
  intro i hi
  have hni := hn i hi
  cases p with
  | none => simp [Seat.last] at hi
  | some g =>
    simp only [Seat.last, Option.elim] at hi
    split at hi
    · obtain rfl := List.mem_singleton.mp hi
      rw [← hw, show g = h from hni]
      rfl
    · cases hi

theorem slot_accepts (v : Seat) {x : Ov} {g : Nat} (hw : slotIndex h = w)
    (hn : ∀ i ∈ v.accepts x g, i.Names h) : ∀ i ∈ v.accepts x g, i.slot = some w := by
  intro i hi
  have hni := hn i hi
  rw [Seat.accepts] at hi
  split at hi
  · obtain rfl := List.mem_singleton.mp hi
    rw [← hw, show g = h from hni]
    rfl
  · cases hi

theorem Handler.slot {zero : Bool} {t : IoType} {i : Instr} (hi : Handler w zero t i) :
    i.slot = some w := by
  cases hi <;> rfl

/-- The instructions a step of a slot leaves are about that slot. -/
theorem SeatStep.slot (hs : SeatStep w v a is is' v') (hw : slotIndex h = w)
    (hn : ∀ i ∈ is', i.Names h) (ht : ∀ t, a = .task t → t.slot = w) :
    ∀ i ∈ is', i.slot = some w := by
  cases hs with
  | overflow | posted | sendFull | sendBusy => exact slot_after w _ _
  | connectLate => exact slot_after w (.firstRecv _) _
  | reset | drop => exact slot_last v hw hn
  | assign | failed =>
    rw [List.forall_mem_append] at hn ⊢
    exact ⟨slot_last v hw hn.1, by simp [Instr.slot]⟩
  | notPosted =>
    rw [List.forall_mem_append] at hn ⊢
    exact ⟨slot_last v hw hn.1, slot_after w _ _⟩
  | dispatched hi =>
    rw [List.forall_mem_append] at hn ⊢
    exact ⟨slot_last v hw hn.1, by simpa using hi.slot⟩
  | complete | completeError =>
    rw [List.forall_mem_append] at hn ⊢
    refine ⟨slot_accepts v hw hn.1, ?_⟩
    simp [Instr.Names] at hn
    simp [Instr.slot, hn, hw]
  | execute =>
    rename_i t o
    cases t.kind <;> simp [TaskKind.body, Instr.slot]
  | lookup =>
    rename_i g call _
    rw [List.forall_mem_append] at hn ⊢
    refine ⟨by cases call <;> simp [Call.body, Instr.slot], ?_⟩
    simp [Instr.Names] at hn
    simp [Instr.slot, hn, hw]
  | task =>
    rename_i t
    simp [Instr.slot, ht t rfl]
  | _ =>
    simp [Instr.Names] at hn
    simp [Instr.slot, hn, hw]

namespace Engine

section

variable {n p : Instr → Bool}

/-- Something in the list pays for the slot `w`. -/
def Paid (p : Instr → Bool) (w : Nat) (l : List Instr) : Prop := ∃ j ∈ l, j.slot = some w ∧ p j = true

theorem Paid.cons (h : Paid p w l) (i : Instr) : Paid p w (i :: l) := by
  obtain ⟨j, hj, hs⟩ := h
  exact ⟨j, List.mem_cons_of_mem i hj, hs⟩

theorem Paid.append (h : Paid p w l) : ∀ is : List Instr, Paid p w (is ++ l)
  | [] => h
  | i :: is => (Paid.append h is).cons i

theorem Covered.append (hl : Covered n p l) (hp : Paid p w l) :
    ∀ {is : List Instr}, (∀ i ∈ is, i.slot = some w) → Covered n p (is ++ l)
  | [], _ => hl
  | i :: is, hs => by
      refine ⟨fun _ => ?_, Covered.append hl hp fun j hj => hs j (List.mem_cons_of_mem i hj)⟩
      obtain ⟨j, hj, hj', hpay⟩ := (hp.append is).cons i
      exact ⟨j, hj, hj'.trans (hs i List.mem_cons_self).symm, hpay⟩

theorem Covered.idle (hl : Covered n p l) :
    ∀ {is : List Instr}, (∀ i ∈ is, n i = false) → Covered n p (is ++ l)
  | [], _ => hl
  | i :: is, hs => by
      refine ⟨fun hn => ?_, Covered.idle hl fun j hj => hs j (List.mem_cons_of_mem i hj)⟩
      rw [hs i List.mem_cons_self] at hn
      cases hn

/-- It pays for itself. -/
theorem Covered.self (hl : Covered n p l) {i : Instr} (hp : p i = true) : Covered n p (i :: l) :=
  ⟨fun _ => ⟨i, List.mem_cons_self, rfl, hp⟩, hl⟩

/-- What pays is behind. -/
theorem Covered.own (hl : Covered n p l) {j : Instr} (hj : j.slot = some w) (hp : p j = true)
    (is : List Instr) (hs : ∀ i ∈ is, i.slot = some w) : Covered n p (is ++ j :: l) :=
  (hl.self hp).append ⟨j, List.mem_cons_self, hj, hp⟩ hs

theorem Covered.tail : ∀ (is : List Instr), Covered n p (is ++ l) → Covered n p l
  | [], h => h
  | _ :: is, h => Covered.tail is h.2

theorem Covered.insert {fs : List Instr} (hfs : ∀ i ∈ fs, n i = false) :
    ∀ {is : List Instr}, Covered n p (is ++ l) → Covered n p (is ++ (fs ++ l))
  | [], h => h.idle hfs
  | i :: is, h => by
      refine ⟨fun hn => ?_, Covered.insert hfs h.2⟩
      obtain ⟨j, hj, hs⟩ := h.1 hn
      refine ⟨j, ?_, hs⟩
      rcases List.mem_append (s := i :: is).mp hj with hj | hj
      · exact List.mem_append_left _ hj
      · exact List.mem_append_right (i :: is) (List.mem_append_right fs hj)

/-- An instruction that does not pay is covered by one behind it. -/
theorem Covered.behind {i : Instr} (hl : Covered n p (i :: l)) (hi : i.slot = some w)
    (hn : n i = true) (hp : p i = false) : Paid p w l := by
  obtain ⟨j, hj, hjs, hjp⟩ := hl.1 hn
  rcases List.mem_cons.mp hj with rfl | hj
  · rw [hp] at hjp
    cases hjp
  · exact ⟨j, hj, hjs.trans hi, hjp⟩

end

theorem needs_last (v : Seat) (p : Option Nat) : ∀ i ∈ v.last p, i.needs = false := by
  cases p with
  | none => simp [Seat.last]
  | some g =>
    simp only [Seat.last, Option.elim]
    split <;> simp [Instr.needs]

/-- A step of a slot keeps the references the thread needs behind it. -/
theorem Covered.step (hs : SeatStep w v a is is' v')
    (hl : Covered Instr.needs Instr.pays (is ++ l)) (hi : ∀ i ∈ is, i.slot = some w)
    (hi' : ∀ i ∈ is', i.slot = some w) : Covered Instr.needs Instr.pays (is' ++ l) := by
  have hrest : ∀ {i : Instr}, is = [i] → Covered Instr.needs Instr.pays l := by
    rintro i rfl
    exact hl.2
  -- the instruction executed needed a reference, and did not have it itself
  have hpaid : ∀ {i : Instr}, is = [i] → i.needs = true → i.pays = false → Paid Instr.pays w l := by
    rintro i rfl hn hp
    exact hl.behind (hi i List.mem_cons_self) hn hp
  cases hs with
  | pop | task | dequeue | accepted | disconnected =>
    refine Covered.idle hl ?_
    simp [Instr.needs]
  | init | construct | enter | giveNone | push | account | accountEnd | logIn | logOut
  | setAccountId | taskEnd =>
    refine Covered.idle (hrest rfl) ?_
    simp [Instr.needs]
  | give => exact (hrest rfl).self (by simp)
  | execute =>
    rename_i t o
    refine Covered.idle (hrest rfl) ?_
    cases t.kind <;> simp [TaskKind.body, Instr.needs]
  | drop => exact Covered.idle (hrest rfl) (needs_last v _)
  | acceptPosted | acceptFailed =>
    rw [List.forall_mem_cons, List.forall_mem_singleton] at hi'
    exact (hrest rfl).own hi'.2 rfl [_] (by simpa using hi'.1)
  | complete | completeError =>
    rw [List.forall_mem_append, List.forall_mem_cons, List.forall_mem_singleton] at hi'
    rw [List.append_assoc, List.cons_append, List.singleton_append, ← List.singleton_append,
      ← List.append_assoc]
    refine (hrest rfl).own hi'.2.2 rfl _ ?_
    rw [List.forall_mem_append, List.forall_mem_singleton]
    exact ⟨hi'.1, hi'.2.1⟩
  | lookup =>
    rw [List.forall_mem_append, List.forall_mem_singleton] at hi'
    rw [List.append_assoc]
    exact Covered.own hl hi'.2 rfl _ hi'.1
  | overflow hk =>
    rename_i p o _
    cases p with
    | firstRecv | nextRecv => exact (hrest rfl).append (hpaid rfl rfl rfl) hi'
    | _ => cases hk
  | register =>
    rename_i p o _
    cases p with
    | accept g => exact (hrest rfl).self (by simp)
    | plain =>
      have hn : ∀ i ∈ [Instr.assign w .plain v.entry], i.needs = false := by simp [Instr.needs]
      exact Covered.idle (hrest rfl) hn
    | _ => exact (hrest rfl).append (hpaid rfl rfl rfl) hi'
  | assign =>
    rename_i p session o
    cases p with
    | accept g =>
      rw [List.append_assoc]
      exact Covered.idle ((hrest rfl).self rfl) (needs_last v _)
    | plain =>
      refine Covered.idle (hrest rfl) (List.forall_mem_append.mpr ⟨needs_last v _, ?_⟩)
      simp [Instr.needs]
    | _ => exact (hrest rfl).append (hpaid rfl rfl rfl) hi'
  | posted hk =>
    rename_i p o _ _
    cases p with
    | accept g => simp at hk
    | disconnect => simp at hk
    | plain => exact hrest rfl
    | _ => exact (hrest rfl).append (hpaid rfl rfl rfl) hi'
  | notPosted hk =>
    rename_i p o _
    cases p with
    | accept g => simp at hk
    | disconnect => simp at hk
    | plain =>
      refine Covered.idle (hrest rfl) (List.forall_mem_append.mpr ⟨needs_last v _, ?_⟩)
      simp [Purpose.after]
    | _ => exact (hrest rfl).append (hpaid rfl rfl rfl) hi'
  | sendFull =>
    rename_i p o _ _
    cases p with
    | plain => exact hrest rfl
    | _ => exact (hrest rfl).append (hpaid rfl rfl rfl) hi'
  | sendIdle | sendBusy =>
    rename_i p o _ _ _
    cases p with
    | plain =>
      refine Covered.idle (hrest rfl) ?_
      simp [Purpose.after, Instr.needs]
    | _ => exact (hrest rfl).append (hpaid rfl rfl rfl) hi'
  | _ => exact (hrest rfl).append (hpaid rfl rfl rfl) hi'

variable {ι : Type} {N kMaxAccept : Nat} {s s' : Engine ι N} {e : Event ι} {fs fs' : List Instr}

theorem slot_spawns (v : Seat) (o : Outcome) (i : Instr) :
    ∀ j ∈ i.spawns v o, j.slot = none ∧ j.needs = false := by
  cases i with
  | give k =>
    simp only [Instr.spawns]
    split <;> simp [Instr.slot, Instr.needs]
  | post k p => cases p <;> simp [Instr.spawns, Instr.slot, Instr.needs]
  | execute t =>
    simp only [Instr.spawns]
    split <;> simp [Instr.slot, Instr.needs]
  | _ => simp [Instr.spawns, Instr.slot, Instr.needs]

/-- The instructions an event takes and leaves are about its slot, or about none. -/
theorem Touches.slots (ht : Touches s s' e w a is fs fs') :
    (∀ i ∈ is, i.slot = some w) ∧ (∀ i ∈ fs, i.slot = none) ∧
      (∀ i ∈ fs', i.slot = none ∧ i.needs = false) ∧ (is = [] ∨ fs = []) := by
  cases ht with
  | run hc hi => exact ⟨by simpa using hi, by simp, slot_spawns _ _ _, .inr rfl⟩
  | pop | lookup => exact ⟨by simp, by simp [Instr.slot], by simp, .inl rfl⟩
  | _ => exact ⟨by simp, by simp, by simp, .inl rfl⟩

theorem Idles.slots (hi : Idles kMaxAccept s s' e fs fs') :
    (∀ i ∈ fs, i.slot = none) ∧ ∀ i ∈ fs', i.slot = none ∧ i.needs = false := by
  cases hi <;> simp [Instr.slot, Instr.needs]

/-- The code of the slots, when what there is but `R` is about the slot `w` or about none. -/
theorem codeAt_of [Fintype ι] {R : Multiset Instr} (hall : s.all = ↑(is ++ fs) + R)
    (hi : ∀ i ∈ is, i.slot = some w) (hf : ∀ i ∈ fs, i.slot = none) :
    s.codeAt w = is + R.filter (·.slot = some w) ∧
      ∀ x ≠ w, s.codeAt x = R.filter (·.slot = some x) := by
  have hfree : ∀ x, (fs : Multiset Instr).filter (·.slot = some x) = 0 := by
    intro x
    refine Multiset.filter_eq_nil.mpr fun i hi' e => ?_
    rw [hf i (Multiset.mem_coe.mp hi')] at e
    cases e
  rw [codeAt, hall, ← Multiset.coe_add]
  refine ⟨?_, fun x hx => ?_⟩
  · rw [Multiset.filter_add, Multiset.filter_add, hfree, add_zero, Multiset.filter_eq_self.mpr]
    exact fun i hi' => hi i (Multiset.mem_coe.mp hi')
  · rw [codeAt, hall, ← Multiset.coe_add, Multiset.filter_add, Multiset.filter_add, hfree, add_zero,
      Multiset.filter_eq_nil.mpr, zero_add]
    intro i hi' e
    rw [hi i (Multiset.mem_coe.mp hi')] at e
    exact hx (Option.some.inj e).symm

/-- Before any thread has started. -/
theorem start_good [Fintype ι] (hN : N < 2 ^ 32) : (start ι N).Good := by
  have hall : (start ι N).all = 0 := Finset.sum_eq_zero fun _ _ => rfl
  have hcode : ∀ w, (start ι N).codeAt w = 0 := by
    intro w
    rw [codeAt, hall, Multiset.filter_zero]
  refine ⟨SparseSet.new_rep hN (by decide), fun w hw => ?_, fun _ => trivial, ?_, ?_, fun _ _ => rfl⟩
  · rw [hcode]
    exact Seat.fresh_base w
  · intro a i hi
    cases hi
  · intro t ht
    cases ht

variable [DecidableEq ι]

theorem Replaces.forall {P : List Instr → Prop} (hc : Replaces s s' fs fs')
    (h : ∀ a, P (s.code a)) (hP : ∀ rest, P (fs ++ rest) → P (fs' ++ rest)) : ∀ a, P (s'.code a) := by
  intro b
  cases hc with
  | thread a rest ha ha' =>
    rw [ha']
    by_cases e : b = a
    · subst e
      rw [Function.update_self]
      exact hP rest (ha ▸ h b)
    · rw [Function.update_of_ne e]
      exact h b
  | nothing h₁ h₂ ha =>
    rw [ha]
    exact h b

theorem mem_posts {v : Seat} {o : Outcome} {i : Instr} {t : Task} (h : t ∈ i.posts v o) :
    i.slot = some t.slot := by
  cases i with
  | onRecv k =>
    simp only [Instr.posts, List.mem_map] at h
    obtain ⟨-, -, rfl⟩ := h
    rfl
  | _ => cases h

variable [Fintype ι]

/-- The invariant of the slot that takes a step, and what is to be executed about each slot. -/
theorem Good.seat (hN : N < 2 ^ 32) (hg : s.Good) (hf : s.Fits) (hw : w < N) (hr' : s'.set.Rep)
    (hs : SeatStep w (s.view w) a is is' (s'.view w)) (ht : Touches s s' e w a is fs fs')
    (hc : Replaces s s' (is ++ fs) (is' ++ fs')) :
    (∀ i ∈ is', i.slot = some w) ∧ (∃ M, s.codeAt w = is + M ∧ s'.codeAt w = is' + M) ∧
      (s'.view w).Base w (s'.codeAt w) ∧ ∀ x ≠ w, s'.codeAt x = s.codeAt x := by
  obtain ⟨R, hall, hall'⟩ := hc.all
  obtain ⟨hi, hfs, hfs', -⟩ := ht.slots
  obtain ⟨hat, hother⟩ := codeAt_of hall hi hfs
  have hb := hg.base w hw
  have hcov := hg.cover w
  have hlt := hf.held hw
  rw [hat] at hb hcov hlt
  have hb' := hb.step hs hcov (hg.rep.slotIndex_handle hN hw) hlt
  have hslot : ∀ i ∈ is', i.slot = some w :=
    hs.slot (hr'.slotIndex_handle hN hw)
      (fun i hi => hb'.names i (Multiset.mem_add.mpr (.inl (Multiset.mem_coe.mpr hi))))
      (by rintro t rfl; cases ht; rfl)
  obtain ⟨hat', hother'⟩ := codeAt_of hall' hslot fun i hi => (hfs' i hi).1
  exact ⟨hslot, ⟨_, hat, hat'⟩, hat' ▸ hb', fun x hx => (hother' x hx).trans (hother x hx).symm⟩

theorem Idles.codeAt (hi : Idles kMaxAccept s s' e fs fs') (hc : Replaces s s' fs fs') (x : Nat) :
    s'.codeAt x = s.codeAt x := by
  obtain ⟨hfs, hfs'⟩ := hi.slots
  obtain ⟨R, hall, hall'⟩ := hc.all
  have hnone : ∀ i ∈ ([] : List Instr), i.slot = some x := by simp
  rw [(codeAt_of hall hnone hfs).1, (codeAt_of hall' hnone fun i hi => (hfs' i hi).1).1]

/-- What every slot keeps in its own steps, all slots keep in every step. -/
theorem Good.slots {P : Nat → Seat → Multiset Instr → Prop} (hN : N < 2 ^ 32) (hg : s.Good)
    (hf : s.Fits) (h : s.step kMaxAccept e = some s') (hP : ∀ w < N, P w (s.view w) (s.codeAt w))
    (hstep : ∀ w < N, ∀ a is is' fs fs' M, SeatStep w (s.view w) a is is' (s'.view w) →
      Touches s s' e w a is fs fs' → s.codeAt w = is + M → P w (s'.view w) (is' + M)) :
    ∀ w < N, P w (s'.view w) (s'.codeAt w) := by
  intro x hx
  obtain ⟨hm, hr'⟩ := step_moves hN hg h
  cases hm with
  | slot hw hs ho ht hc =>
    rename_i w a is is' fs fs'
    obtain ⟨-, ⟨M, hM, hM'⟩, -, hother⟩ := hg.seat hN hf hw hr' hs ht hc
    by_cases e : x = w
    · subst e
      rw [hM']
      exact hstep x hx a is is' fs fs' M hs ht hM
    · rw [ho x e, hother x e]
      exact hP x hx
  | idle ho ht hi hc =>
    rw [ho x, hi.codeAt hc x]
    exact hP x hx

/-- **The invariant of the engine is kept.** -/
theorem Good.step (hN : N < 2 ^ 32) (hg : s.Good) (hf : s.Fits)
    (h : s.step kMaxAccept e = some s') : s'.Good := by
  obtain ⟨hm, hr'⟩ := step_moves hN hg h
  cases hm with
  | slot hw hs ho ht hc =>
    rename_i w act is is' fs fs'
    obtain ⟨hslot, -, hb, hother⟩ := hg.seat hN hf hw hr' hs ht hc
    obtain ⟨hi, hfs, hfs', hnil⟩ := ht.slots
    refine ⟨hr', fun x hx => ?_, ?_, ?_, ?_, fun x hx => ?_⟩
    · by_cases e : x = w
      · subst e
        exact hb
      · rw [ho x e, hother x e]
        exact hg.base x hx
    · refine hc.forall hg.covered fun rest hl => ?_
      rw [List.append_assoc]
      refine Covered.insert (fun i hi => (hfs' i hi).2) ?_
      rw [List.append_assoc] at hl
      rcases hnil with rfl | rfl
      · exact Covered.step hs (Covered.tail fs hl) hi hslot
      · exact Covered.step hs hl hi hslot
    · refine hc.forall (P := fun l => ∀ i ∈ l, ∀ x, i.slot = some x → x < N) hg.inRange
        fun rest hl i hi' x hx => ?_
      rw [List.append_assoc, List.mem_append, List.mem_append] at hi'
      rcases hi' with hi' | hi' | hi'
      · rw [hslot i hi'] at hx
        exact Option.some.inj hx ▸ hw
      · rw [(hfs' i hi').1] at hx
        cases hx
      · exact hl i (List.mem_append_right _ hi') x hx
    · intro t htask
      cases ht with
      | run _ _ _ htasks =>
        rw [htasks, List.mem_append] at htask
        rcases htask with htask | htask
        · exact hg.tasks t htask
        · have hw' := (mem_posts htask).symm.trans (hi _ (List.mem_singleton_self _))
          exact Option.some.inj hw' ▸ hw
      | task _ htasks => exact hg.tasks t (htasks ▸ List.mem_cons_of_mem _ htask)
      | _ =>
        rename_i htasks
        exact hg.tasks t (htasks ▸ htask)
    · have hx' : x ≠ w := by omega
      exact (congrArg Seat.conn (ho x hx')).trans (hg.blank x hx)
  | idle ho ht hi hc =>
    obtain ⟨hfs, hfs'⟩ := hi.slots
    have hcode := hi.codeAt hc
    refine ⟨hr', fun x hx => ?_, ?_, ?_, fun t => ht ▸ hg.tasks t, fun x hx => ?_⟩
    · rw [ho x, hcode x]
      exact hg.base x hx
    · exact hc.forall hg.covered fun rest hl =>
        Covered.idle (Covered.tail _ hl) fun i hi => (hfs' i hi).2
    · refine hc.forall (P := fun l => ∀ i ∈ l, ∀ x, i.slot = some x → x < N) hg.inRange
        fun rest hl i hi' x hx => ?_
      rcases List.mem_append.mp hi' with hi' | hi'
      · rw [(hfs' i hi').1] at hx
        cases hx
      · exact hl i (List.mem_append_right _ hi') x hx
    · exact (congrArg Seat.conn (ho x)).trans (hg.blank x hx)

/-- **The invariant holds in every run** in which the pointers fit in memory. -/
theorem run_good (hN : N < 2 ^ 32) {es : List (Event ι)} {ok : Engine ι N → Event ι → Prop}
    (hok : ∀ t e, ok t e → t.Fits) (r : Runs (step kMaxAccept) ok (start ι N) es s) : s.Good :=
  r.invariant (start_good hN) fun _ _ _ ha hok' hb => Good.step hN ha (hok _ _ hok') hb

/-! ### Computed runs -/

instance (s : Engine ι N) : Decidable s.Fits := inferInstanceAs (Decidable (_ < _))

/-- What the code does not decide, when all is well. -/
def well : Outcome := ⟨true, false, [], []⟩

/-- The thread `a` goes on `n` times, and all is well. -/
def runs (a : ι) (n : Nat) : List (Event ι) := List.replicate n (.run a well)

end Engine

end IocpServer
