import IocpServer.Server.Code

/-!
# Server — Base

The invariant of a slot, whatever is called and whichever tasks run.
-/

namespace IocpServer

namespace Tally

variable {st g c h k a p : Nat}

theorem congr {h' k' : Nat} (t : Tally st g c h k a p) (eh : h' = h) (ek : k' = k) :
    Tally st g c h' k' a p :=
  eh ▸ ek ▸ t

/-- A slot in use is moved to another state. -/
theorem move {st' : Nat} (t : Tally st g c h k a p) (h0 : st ≠ 0) (h1 : st' ≠ 0) :
    Tally st' g c h k a p := by
  have hf := t.free_iff
  have hb := t.balance
  rw [if_neg h0] at hb
  exact ⟨t.count_eq, t.kept_once, ⟨fun e => absurd e h1, fun e => absurd (hf.mpr e) h0⟩,
    by rw [if_neg h1, hb], t.turn⟩

/-- A copy of a pointer, if there is one. -/
theorem copy {r : Option Nat} {h' : Nat} (t : Tally st g c h k a p) (hr : refs r ≤ h)
    (hlt : h + 1 < 2 ^ 64) (eh : h' = h + refs r) :
    Tally st g (r.elim c fun _ => u64 (c + 1)) h' k a p := by
  subst eh
  cases r with
  | none => exact t
  | some x =>
    have hc := t.count_eq
    rw [refs_some] at hr ⊢
    rw [Option.elim_some]
    exact t.share (by omega) hlt

/-- The release of a pointer, if there is one. -/
theorem release {r : Option Nat} {h' : Nat} (t : Tally st g c h k a p) (hlt : h + 1 < 2 ^ 64)
    (eh : h = h' + refs r) :
    Tally st g (r.elim c fun _ => sub64 c 1) h' (k + if refs r = 1 ∧ c = 1 then 1 else 0) a p := by
  subst eh
  cases r with
  | none => exact t
  | some x =>
    rw [refs_some] at t hlt ⊢
    rw [Option.elim_some]
    by_cases hc : c = 1
    · rw [if_pos ⟨rfl, hc⟩]
      exact t.last hc
    · rw [if_neg fun e => hc e.2]
      exact t.drop hc (by omega)

end Tally

namespace Seat

variable {w : Nat} {v v' : Seat} {a : Act} {is is' : List Instr} {M : Multiset Instr}

/-- All references to a slot. -/
def held (v : Seat) (C : Multiset Instr) : Nat := refs v.entry + ptrs v.conn.ov + weight Instr.holds C

/-- **The invariant of a slot.** -/
structure Base (w : Nat) (v : Seat) (C : Multiset Instr) : Prop where
  tally : Tally v.cell.state v.cell.generation v.count (v.held C) (num Instr.keeps C) v.acquired
    v.pushed
  entry_eq : ∀ g, v.entry = some g → g = v.handle w
  ptr_eq : ∀ x g, (v.conn.ov x).sessionPtr = some g → g = v.handle w
  names : ∀ i ∈ C, i.Names (v.handle w)
  creates_le : num Instr.creates C ≤ 1
  creating : 0 < num Instr.creates C → v.cell.state = 1 ∧ v.held C = num Instr.enters C
  handle_index : v.conn.handle = kInvalidHandle ∨ slotIndex v.conn.handle = w
  handle_eq : v.cell.state ≠ 0 → num Instr.creates C = 0 → v.conn.handle = v.handle w
  locked : num Instr.inConnectCs C = v.conn.connectCs.toNat
  connecting : 0 < num Instr.connects C → v.cell.state = 1
  disconnecting : 0 < num Instr.setsState C → v.cell.state = 1 ∨ v.cell.state = 2
  once : (v.conn.ov .disconnect).ops + num Instr.disconnects C + v.life.resets ≤ 1
  before : v.cell.state = 1 ∨ v.cell.state = 2 →
    (v.conn.ov .disconnect).ops + num Instr.disconnects C + v.life.resets = num Instr.setsState C
  entered : v.cell.state ≠ 0 → num Instr.creates C = 0 → refs v.entry + v.life.resets = 1
  pins : (v.conn.ov .disconnect).ops + num Instr.pinned C ≤ refs (v.conn.ov .disconnect).sessionPtr
  recv_type : (v.conn.ov .recv).ioType ≠ .kDisconnect
  send_type : (v.conn.ov .send).ioType ≠ .kDisconnect
  disconnect_type : 0 < (v.conn.ov .disconnect).ops + num Instr.typed C →
    (v.conn.ov .disconnect).ioType = .kDisconnect
  connects_le : v.life.connects ≤ 1
  connects_eq : v.cell.state = 1 → v.life.connects = 0
  registers_le : v.life.registers + num Instr.registers C ≤ 1
  registers_eq : v.cell.state = 1 ∨ v.cell.state = 2 → v.life.registers = 0

/-- Who needs a reference has one. -/
def Cover (C : Multiset Instr) : Prop :=
  ∀ i ∈ C, i.needs = true → num Instr.enters C < weight Instr.holds C

/-- While nothing is held, nothing that needs a reference is to be executed. -/
theorem Cover.num_eq_zero {C : Multiset Instr} (hc : Cover C)
    (h0 : weight Instr.holds C ≤ num Instr.enters C) {q : Instr → Bool}
    (hq : ∀ i, q i = true → i.needs = true) : num q C = 0 := by
  rw [IocpServer.num_eq_zero]
  intro i hi
  by_contra hqi
  have := hc i hi (hq i (by simpa using hqi))
  omega

/-- A session in use: `CreateSession` is done with it. -/
theorem Base.in_use {C : Multiset Instr} (hb : Base w v C) (hc : Cover C) {i : Instr} (hi : i ∈ C)
    (hn : i.needs = true) : v.cell.state ≠ 0 ∧ num Instr.creates C = 0 := by
  have hlt := hc i hi hn
  have ht := hb.tally.free_iff
  have hcr := hb.creating
  simp only [held] at ht hcr
  omega

theorem ptr_le_held {p : Option Nat} (x : Ov) (C : Multiset Instr) (hp : (v.conn.ov x).sessionPtr = p) :
    refs p ≤ v.held C := by
  have := v.conn.ptr_le_ptrs x
  rw [held, ← hp]
  omega

theorem entry_le_held {p : Option Nat} (C : Multiset Instr) (hp : v.entry = p) :
    refs p ≤ v.held C := by
  rw [held, hp]
  omega

theorem handle_congr (h : v'.cell.generation = v.cell.generation) : v'.handle w = v.handle w := by
  rw [handle, h]
  rfl

/-- Nothing that is pushed is held, and it is pushed by one thread only. -/
theorem Base.pushing (hb : Base w v (is + M)) {g : Nat} (hg : is = [.push g]) :
    refs v.entry = 0 ∧ ptrs v.conn.ov = 0 ∧ weight Instr.holds M = 0 ∧ num Instr.keeps M = 0 := by
  subst hg
  have hk := hb.tally.kept_once
  simp [held] at hk
  omega

theorem tally_step (h : SeatStep w v a is is' v') (hb : Base w v (is + M))
    (hlt : v.held (is + M) + 1 < 2 ^ 64) :
    Tally v'.cell.state v'.cell.generation v'.count (v'.held (is' + M)) (num Instr.keeps (is' + M))
      v'.acquired v'.pushed := by
  have ht := hb.tally
  cases h with
  | pop h0 =>
    refine (ht.pop h0 (one_ne_zero : (1 : Nat) ≠ 0)).congr ?_ ?_
    · simp [held]
    · simp
  | init =>
    have hk := ht.kept_once
    simp at hk
    have h0 : v.count = 0 := ht.count_eq.trans hk.2
    rw [h0] at ht
    refine ht.congr ?_ ?_
    · have := hk.2
      simp [held] at this ⊢
      omega
    · simp
  | construct => 
    simp at ht
    refine ht.first.congr ?_ ?_
    · simp [held]; omega
    · simp
  | enter he => 
    refine ht.congr ?_ ?_
    · simp [held, he]; omega
    · simp
  | give he =>
    refine (ht.copy (entry_le_held _ he) hlt rfl).congr ?_ ?_
    · simp [held, Purpose.ioType]; omega
    · simp
  | register hp | registerDisconnect => 
    refine (ht.copy (entry_le_held _ rfl) hlt rfl).congr ?_ ?_
    · simp [held, Purpose.ioType]; omega
    · simp
  | complete hg | completeError hg | handleError hg | handleDisconnectError hg | dispatch hg => 
    refine (ht.copy (ptr_le_held _ _ hg) hlt rfl).congr ?_ ?_
    · simp [held]; omega
    · simp
  | lookup he => 
    refine (ht.copy (entry_le_held _ he) hlt rfl).congr ?_ ?_
    · simp [held]; omega
    · simp
  | assign => 
    rename_i p session o
    have hs := v.conn.setPtr_ptrs p.ov session
    refine (ht.release (r := (v.conn.ov p.ov).sessionPtr) hlt ?_).congr rfl ?_ 
    · simp [held]
      omega
    · simp [keeps_last]
      omega
  | dispatched hi => 
    rename_i x zero g i o
    have hs := v.conn.setPtr_ptrs x none
    have hk : i.keeps = false := (hi.count Instr.keeps rfl rfl rfl rfl).trans (by simp)
    refine (ht.release (r := (v.conn.ov x).sessionPtr) hlt ?_).congr rfl ?_ 
    · simp [held, hi.holds] at hs ⊢
      omega
    · simp [keeps_last, hk]
      omega
  | failed => 
    rename_i x g o
    have hs := v.conn.setPtr_ptrs x none
    refine (ht.release (r := (v.conn.ov x).sessionPtr) hlt ?_).congr rfl ?_ 
    · simp [held] at hs ⊢
      omega
    · simp [keeps_last]
      omega
  | notPosted hp ho => 
    rename_i p o
    have hs := v.conn.setPtr_ptrs p.ov none
    have hacc : p.ioType ≠ .kAccept := by rcases hp with e | e <;> simp [e]
    refine (ht.release (r := (v.conn.ov p.ov).sessionPtr) hlt ?_).congr rfl ?_ 
    · simp [held, hacc] at hs ⊢
      omega
    · simp [keeps_last]
      omega
  | reset => 
    refine (ht.release (r := v.entry) hlt ?_).congr rfl ?_ 
    · simp [held]
      omega
    · simp [keeps_last]
      omega
  | drop => 
    rename_i g o
    refine (ht.release (r := some g) hlt ?_).congr rfl ?_ 
    · simp [held]
      omega
    · simp [keeps_last]
      omega
  | push => 
    simp at ht
    exact ht.push.congr (by simp [held]) (by simp)
  | connectSession =>
    have hst := hb.connecting (by simp)
    exact (ht.move (by rw [hst]; decide) (by simp)).congr (by simp [held]) (by simp)
  | setState =>
    have hst := hb.disconnecting (by simp)
    exact (ht.move (by rcases hst with e | e <;> simp [e]) (by simp)).congr
      (by simp [held, Purpose.ioType]) (by simp)
  | overflow hp ho =>
    exact ht.congr (by simp [held, hp]) (by simp)
  | posted hp ho =>
    rename_i p o _
    have hacc : p.ioType ≠ .kAccept := by rcases hp with e | e <;> simp [e]
    exact ht.congr (by simp [held, hacc]) (by simp)
  | sendIdle =>
    rename_i p o _ _ _
    have hp : p.ioType = .kSend := hb.names (.sendPacket w p) (by simp)
    exact ht.congr (by simp [held, hp]) (by simp)
  | _ => exact ht.congr (by simp [held, Purpose.ioType]) (by simp)

theorem names_step (h : SeatStep w v a is is' v') (hb : Base w v (is + M)) (hcov : Cover (is + M)) :
    ∀ i ∈ is' + M, i.Names (v'.handle w) := by
  have hM : ∀ i ∈ M, i.Names (v.handle w) :=
    fun i hi => hb.names i (Multiset.mem_add.mpr (.inr hi))
  have hi : ∀ i ∈ is, i.Names (v.handle w) :=
    fun i hi => hb.names i (Multiset.mem_add.mpr (.inl (Multiset.mem_coe.mpr hi)))
  have he := hb.entry_eq
  have hp := hb.ptr_eq
  have frame : v'.cell.generation = v.cell.generation → (∀ i ∈ is', i.Names (v.handle w)) →
      ∀ i ∈ is' + M, i.Names (v'.handle w) := by
    intro e hl i hi
    rw [handle_congr e]
    rcases Multiset.mem_add.mp hi with hi | hi
    · exact hl i (Multiset.mem_coe.mp hi)
    · exact hM i hi
  cases h with
  | push =>
    -- what is left holds nothing and needs nothing
    obtain ⟨-, -, hl, hk⟩ := hb.pushing rfl
    intro i him
    have him : i ∈ M := by simpa using him
    refine Instr.Names.idle (hM i him) ?_ (num_eq_zero.mp hk i him) ?_
    · by_contra hne
      have := hcov i (by simp [him]) (by simpa using hne)
      simp [hl] at this
    · exact Nat.le_zero.mp ((le_weight him).trans hl.le)
  | overflow | posted | sendFull | sendBusy => exact frame rfl (names_after w _ _ _)
  | connectLate => exact frame rfl (names_after w (.firstRecv _) _ _)
  | execute => exact frame rfl (names_body w _ _)
  | lookup hg =>
    refine frame rfl (List.forall_mem_append.mpr ⟨names_call w _ _, ?_⟩)
    simpa [Instr.Names] using he _ hg
  | give hg =>
    refine frame rfl ?_
    simpa [Instr.Names] using he _ hg
  | register hd =>
    rename_i p o
    refine frame rfl ?_
    cases p with
    | disconnect => exact absurd rfl hd
    | accept g => simpa [Instr.Names] using ⟨by simpa [Instr.Names] using hi, he⟩
    | _ => simpa [Instr.Names] using he
  | registerDisconnect =>
    -- `DisconnectSession` comes after the disconnect, so the entry is still there
    obtain ⟨hst, hcr⟩ := hb.in_use hcov (i := .register w .disconnect) (by simp) rfl
    have hone := hb.entered hst hcr
    have ho := hb.once
    simp at ho
    obtain ⟨g, hg⟩ : ∃ g, v.entry = some g := by
      refine Option.ne_none_iff_exists'.mp fun e => ?_
      rw [e, refs_none] at hone
      omega
    refine frame rfl ?_
    simpa [Instr.Names, hg] using he g hg
  | assign =>
    rename_i p session o
    refine frame rfl (List.forall_mem_append.mpr ⟨names_last v (hp p.ov), ?_⟩)
    cases p with
    | accept g =>
      have hg := hi _ (List.mem_singleton_self _)
      simp only [Instr.Names] at hg
      simpa [Instr.Names] using hg.1
    | _ => simp [Instr.Names]
  | notPosted =>
    rename_i p o _ _
    exact frame rfl (List.forall_mem_append.mpr ⟨names_last v (hp p.ov), names_after w p _ _⟩)
  | failed =>
    rename_i x g o
    refine frame rfl (List.forall_mem_append.mpr ⟨names_last v (hp x), ?_⟩)
    simp [Instr.Names]
  | dispatched hh =>
    rename_i x zero g i o
    refine frame rfl (List.forall_mem_append.mpr ⟨names_last v (hp x), ?_⟩)
    simpa using hh.names _
  | reset => exact frame rfl (names_last v he)
  | drop =>
    refine frame rfl (names_last v fun k hk => ?_)
    cases hk
    simpa [Instr.Names] using hi
  | complete hg | completeError hg =>
    have hg := hp _ _ hg
    refine frame rfl (List.forall_mem_append.mpr ⟨names_accepts v _ hg, ?_⟩)
    simpa [Instr.Names] using hg
  | dispatch hg | handleDisconnectError hg =>
    refine frame rfl ?_
    simpa [Instr.Names] using hp _ _ hg
  | handleError hg ht =>
    rename_i x g o
    have hx : x ≠ .disconnect := by
      rintro rfl
      exact ht (hb.disconnect_type (by simp))
    refine frame rfl ?_
    simpa [Instr.Names, hx] using hp _ _ hg
  | init | construct | acceptPosted | acceptFailed =>
    refine frame rfl ?_
    simpa [Instr.Names] using hi
  | sendIdle =>
    rename_i p o _ _ _
    have hk : p.ioType = .kSend := hi _ (List.mem_singleton_self _)
    refine frame rfl ?_
    cases p with
    | accept g => simp [Purpose.ioType] at hk
    | _ => simp [Instr.Names]
  | _ =>
    refine frame rfl ?_
    simp [Instr.Names, Purpose.ioType]

theorem entry_step (h : SeatStep w v a is is' v') (hb : Base w v (is + M)) :
    ∀ g, v'.entry = some g → g = v'.handle w := by
  have frame : v'.cell.generation = v.cell.generation → v'.entry = v.entry →
      ∀ g, v'.entry = some g → g = v'.handle w := by
    intro e e' g hg
    rw [handle_congr e]
    exact hb.entry_eq g (e' ▸ hg)
  cases h with
  | enter =>
    rename_i g o _
    intro k hk
    cases hk
    exact hb.names (.enter g) (by simp)
  | reset =>
    intro g hg
    cases hg
  | push =>
    intro g hg
    rw [refs_eq_zero.mp (hb.pushing rfl).1] at hg
    cases hg
  | _ => exact frame rfl rfl

theorem ptr_step (h : SeatStep w v a is is' v') (hb : Base w v (is + M)) :
    ∀ x g, (v'.conn.ov x).sessionPtr = some g → g = v'.handle w := by
  have frame : v'.cell.generation = v.cell.generation →
      (∀ x, (v'.conn.ov x).sessionPtr = none ∨
        (v'.conn.ov x).sessionPtr = (v.conn.ov x).sessionPtr) →
      ∀ x g, (v'.conn.ov x).sessionPtr = some g → g = v'.handle w := by
    intro e hx x g hg
    rw [handle_congr e]
    rcases hx x with hx | hx
    · rw [hx] at hg
      cases hg
    · exact hb.ptr_eq x g (hx ▸ hg)
  cases h with
  | init => exact frame rfl fun x => .inl rfl
  | assign =>
    rename_i p session o
    have hn := hb.names (.assign w p session) (by simp)
    intro x g hg
    simp only [Conn.setPtr_ptr] at hg
    split at hg
    · exact hn.session hg
    · exact hb.ptr_eq x g hg
  | notPosted | failed | dispatched =>
    refine frame rfl fun x => ?_
    simp only [Conn.unlock_ov, Conn.setPtr_ptr]
    split
    · exact .inl rfl
    · exact .inr rfl
  | push =>
    have h0 := (hb.pushing rfl).2.1
    intro x g hg
    have hx := v.conn.ptr_le_ptrs x
    rw [h0, Nat.le_zero, refs_eq_zero] at hx
    rw [hx] at hg
    cases hg
  | _ => exact frame rfl fun x => .inr (by simp)

theorem creates_step (h : SeatStep w v a is is' v') (hb : Base w v (is + M)) :
    num Instr.creates (is' + M) ≤ 1 := by
  have hc := hb.creates_le
  cases h with
  | pop h0 =>
    have := hb.creating
    simp [h0] at this ⊢
    omega
  | dispatched hi =>
    have := hi.count Instr.creates
    simp [countP_last, this] at hc ⊢
    omega
  | _ => simp [countP_last] at hc ⊢; omega

/-- While a session is created there is no pointer to it but the one that creates it. -/
theorem Base.alone {C : Multiset Instr} (hb : Base w v C) (hc : 0 < num Instr.creates C) :
    refs v.entry = 0 ∧ ptrs v.conn.ov = 0 ∧ weight Instr.holds C = num Instr.enters C := by
  have hh := (hb.creating hc).2
  have hle := Instr.enters_le C
  rw [held] at hh
  omega

theorem creating_step (h : SeatStep w v a is is' v') (hb : Base w v (is + M))
    (hcov : Cover (is + M)) (hc : 0 < num Instr.creates (is' + M)) :
    v'.cell.state = 1 ∧ v'.held (is' + M) = num Instr.enters (is' + M) := by
  have hcr := hb.creating
  have hal := hb.alone
  have hne : ∀ i ∈ is, i.needs = true → num Instr.creates (is + M) = 0 := fun i hi hn =>
    (hb.in_use hcov (Multiset.mem_add.mpr (.inl (Multiset.mem_coe.mpr hi))) hn).2
  have hle := Instr.enters_le M
  cases h with
  | pop h0 =>
    have hh := (hb.tally.free_iff.mp h0).1
    simp [held] at hh ⊢
    omega
  | init | construct =>
    simp [held] at hcr ⊢
    omega
  | enter he =>
    have := hb.creates_le
    simp at this hc
    omega
  | push =>
    have hp := hb.pushing rfl
    have hle' := Instr.creates_le M
    simp at hc
    omega
  | give he | lookup he =>
    simp [he] at hal hc
    omega
  | complete hg | completeError hg =>
    rename_i x zero g o
    have hx := v.conn.ptr_le_ptrs x
    rw [hg, refs_some] at hx
    simp at hal hc
    omega
  | drop =>
    simp [countP_last] at hal hc
    omega
  | register =>
    rename_i p o _
    simp [held] at hcr hal hc ⊢
    omega
  | assign =>
    rename_i p session o
    have hs := v.conn.setPtr_ptrs p.ov session
    simp [held, countP_last] at hcr hal hc ⊢
    omega
  | notPosted hp =>
    rename_i p o _
    have hs := v.conn.setPtr_ptrs p.ov none
    have hacc : p.ioType ≠ .kAccept := by rcases hp with e | e <;> simp [e]
    simp [held, countP_last, hacc] at hcr hal hc hs ⊢
    omega
  | sendIdle =>
    rename_i p o _ _ _
    have hp : p.ioType = .kSend := hb.names (.sendPacket w p) (by simp)
    simp [held, hp] at hcr hc ⊢
    omega
  | posted hp =>
    rename_i p o _ _
    have hacc : p.ioType ≠ .kAccept := by rcases hp with e | e <;> simp [e]
    simp [held, hacc] at hcr hc ⊢
    omega
  | overflow hp =>
    simp [held, hp] at hcr hc ⊢
    omega
  | sendFull | sendBusy | execute | account | accountEnd | logIn | logOut | setAccountId | taskEnd
  | task | accepted | disconnected | dequeue | giveNone =>
    simp [held] at hcr hc ⊢
    omega
  | dispatched hi =>
    have h0 := hne _ (List.mem_singleton_self _) rfl
    have := hi.count Instr.creates
    simp [countP_last, this] at h0 hc
    omega
  | _ =>
    have h0 := hne _ (List.mem_singleton_self _) rfl
    simp [countP_last] at h0 hc
    omega

theorem handle_index_step (h : SeatStep w v a is is' v') (hb : Base w v (is + M))
    (hw : slotIndex (v.handle w) = w) :
    v'.conn.handle = kInvalidHandle ∨ slotIndex v'.conn.handle = w := by
  cases h with
  | init => exact .inl rfl
  | enter =>
    rename_i g o _
    have hg : g = v.handle w := hb.names (.enter g) (by simp)
    exact .inr (hg ▸ hw)
  | _ => exact hb.handle_index

theorem locked_step (h : SeatStep w v a is is' v') (hb : Base w v (is + M)) :
    num Instr.inConnectCs (is' + M) = v'.conn.connectCs.toNat := by
  have hl := hb.locked
  cases h with
  | dispatched hi =>
    have := hi.count Instr.inConnectCs
    simp [countP_last, this] at hl ⊢
    exact hl
  | connect hfree | disconnect hfree =>
    simp [hfree] at hl ⊢
    exact hl
  | connectSession | setState =>
    have := Bool.toNat_le v.conn.connectCs
    simp at hl ⊢
    omega
  | _ =>
    simp [countP_last, Conn.init, Conn.setType, Conn.setPtr, Conn.unlock, Conn.queue,
      Conn.deliver] at hl ⊢
    exact hl

theorem handle_eq_step (h : SeatStep w v a is is' v') (hb : Base w v (is + M))
    (hst : v'.cell.state ≠ 0) (hc : num Instr.creates (is' + M) = 0) :
    v'.conn.handle = v'.handle w := by
  have frame : v'.cell.generation = v.cell.generation → v'.conn.handle = v.conn.handle →
      v.cell.state ≠ 0 → num Instr.creates (is + M) = 0 → v'.conn.handle = v'.handle w := by
    intro e e' h0 h1
    rw [handle_congr e, e']
    exact hb.handle_eq h0 h1
  cases h with
  | pop | init | construct => simp at hc
  | enter =>
    rename_i g o _
    exact hb.names (.enter g) (by simp)
  | push => exact absurd rfl hst
  | connectSession =>
    have := hb.connecting (by simp)
    exact frame rfl rfl (by omega) (by simpa using hc)
  | setState =>
    have := hb.disconnecting (by simp)
    exact frame rfl rfl (by omega) (by simpa using hc)
  | dispatched hi =>
    have := hi.count Instr.creates
    refine frame rfl rfl hst ?_
    simp [countP_last, this] at hc ⊢
    exact hc
  | _ =>
    refine frame rfl rfl hst ?_
    simp [countP_last] at hc ⊢
    exact hc

theorem connecting_step (h : SeatStep w v a is is' v') (hb : Base w v (is + M))
    (hcov : Cover (is + M)) (hc : 0 < num Instr.connects (is' + M)) : v'.cell.state = 1 := by
  have hcn := hb.connecting
  cases h with
  | pop => rfl
  | connect _ hst => exact hst
  | connectSession | setState =>
    have hl := hb.locked
    have hle := Instr.connects_le M
    have := Bool.toNat_le v.conn.connectCs
    simp at hl hc
    omega
  | push =>
    obtain ⟨-, -, hl, -⟩ := hb.pushing rfl
    have := hcov.num_eq_zero (q := Instr.connects) (by simp [hl]) (by intro i; cases i <;> simp [Instr.needs])
    simp at this hc
    omega
  | dispatched hi =>
    have := hi.count Instr.connects
    simp [countP_last, this] at hcn hc ⊢
    exact hcn hc
  | _ => simp [countP_last] at hcn hc ⊢; exact hcn hc

theorem disconnecting_step (h : SeatStep w v a is is' v') (hb : Base w v (is + M))
    (hcov : Cover (is + M)) (hc : 0 < num Instr.setsState (is' + M)) :
    v'.cell.state = 1 ∨ v'.cell.state = 2 := by
  have hcn := hb.disconnecting
  cases h with
  | pop => exact .inl rfl
  | disconnect _ hst => exact hst
  | connectSession => exact .inr rfl
  | setState =>
    have hl := hb.locked
    have hle := Instr.setsState_le_locked M
    have := Bool.toNat_le v.conn.connectCs
    simp at hl hc
    omega
  | push =>
    obtain ⟨-, -, hl, -⟩ := hb.pushing rfl
    have := hcov.num_eq_zero (q := Instr.setsState) (by simp [hl]) (by intro i; cases i <;> simp [Instr.needs])
    simp at this hc
    omega
  | dispatched hi =>
    have := hi.count Instr.setsState
    simp [countP_last, this] at hcn hc ⊢
    exact hcn hc
  | _ => simp [countP_last] at hcn hc ⊢; exact hcn hc

/-- Only `disconnectOv_` is marked as a disconnect. -/
theorem Base.type_eq {C : Multiset Instr} (hb : Base w v C) {x : Ov}
    (h : (v.conn.ov x).ioType = .kDisconnect) : x = .disconnect := by
  cases x with
  | recv => exact absurd h hb.recv_type
  | send => exact absurd h hb.send_type
  | disconnect => rfl

theorem once_step (h : SeatStep w v a is is' v') (hb : Base w v (is + M)) :
    (v'.conn.ov .disconnect).ops + num Instr.disconnects (is' + M) + v'.life.resets ≤ 1 := by
  have ho := hb.once
  cases h with
  | init => simp [Conn.init] at ho ⊢; exact ho
  | dispatched hi =>
    rename_i x zero g i o
    have hc := hi.count Instr.disconnects
    have ht := hb.type_eq (x := x)
    have hd := hb.disconnect_type
    simp at hd
    by_cases e : x = .disconnect
    · subst e
      simp [countP_last, hc] at ho ⊢
      split <;> omega
    · have : (v.conn.ov x).ioType ≠ .kDisconnect := fun h => e (ht h)
      simp [countP_last, hc, this] at ho ⊢
      omega
  | disconnect hfree hst =>
    have hb' := hb.before hst
    have hl := hb.locked
    have hle := Instr.setsState_le_locked M
    simp [hfree] at hb' hl ho ⊢
    omega
  | handleDisconnectError hg ht =>
    have := hb.type_eq ht
    subst this
    simp at ho ⊢
    omega
  | posted hp | notPosted hp =>
    obtain ⟨hd, hov⟩ := Purpose.ne_disconnect hp
    simp [countP_last, hd, hov] at ho ⊢
    omega
  | sendIdle =>
    rename_i p o _ _ _
    have hp : p.ioType = .kSend := hb.names (.sendPacket w p) (by simp)
    obtain ⟨hd, -⟩ := Purpose.ne_disconnect (.inr hp)
    simp [hd] at ho ⊢
    omega
  | complete | completeError | handleError | dispatch =>
    simp [List.countP_cons] at ho ⊢
    omega
  | dequeue hpos =>
    rename_i x ok zero _
    by_cases e : x = .disconnect
    · subst e
      simp at ho ⊢
      omega
    · simp [e, Ne.symm e] at ho ⊢
      omega
  | _ => simp [countP_last] at ho ⊢; omega

/-- Without references there is no disconnect either. -/
theorem Base.quiet {C : Multiset Instr} (hb : Base w v C) (hc : Cover C)
    (h0 : v.held C ≤ num Instr.enters C) :
    (v.conn.ov .disconnect).ops = 0 ∧ num Instr.disconnects C = 0 := by
  have hle := Instr.enters_le C
  have hp := hb.pins
  have hptr := v.conn.ptr_le_ptrs .disconnect
  rw [held] at h0
  refine ⟨by omega, num_eq_zero.mpr fun i hi => ?_⟩
  by_contra hd
  by_cases hn : i.needs = true
  · have := hc i hi hn
    omega
  · have : 0 < num Instr.pinned C := num_pos hi (by cases i <;> simp_all [Instr.needs])
    omega

theorem before_step (h : SeatStep w v a is is' v') (hb : Base w v (is + M))
    (hcov : Cover (is + M)) (hst : v'.cell.state = 1 ∨ v'.cell.state = 2) :
    (v'.conn.ov .disconnect).ops + num Instr.disconnects (is' + M) + v'.life.resets =
      num Instr.setsState (is' + M) := by
  have ho := hb.before
  have hle := Instr.setsState_le M
  cases h with
  | pop h0 =>
    obtain ⟨h₁, h₂⟩ := hb.quiet hcov ((hb.tally.free_iff.mp h0).1.le.trans (Nat.zero_le _))
    simp at h₁ h₂ ⊢
    omega
  | init => simp [Conn.init] at ho ⊢; exact ho hst
  | dispatched hi =>
    rename_i x zero g i o
    have hc := hi.count Instr.disconnects
    have hc' := hi.count Instr.setsState
    have ht := hb.type_eq (x := x)
    have hd := hb.disconnect_type
    simp at hd
    by_cases e : x = .disconnect
    · subst e
      have := ho hst
      simp [countP_last, hc, hc'] at this ⊢
      omega
    · have hne : (v.conn.ov x).ioType ≠ .kDisconnect := fun h => e (ht h)
      have := ho hst
      simp [countP_last, hc, hc', hne, e] at this ⊢
      exact this
  | disconnect hfree hst =>
    have hb' := hb.before hst
    have hl := hb.locked
    have hle := Instr.setsState_le_locked M
    simp [hfree] at hb' hl ho ⊢
    omega
  | handleDisconnectError hg ht =>
    have := hb.type_eq ht
    subst this
    have := ho hst
    simp at this ⊢
    omega
  | posted hp | notPosted hp =>
    obtain ⟨hd, hov⟩ := Purpose.ne_disconnect hp
    have := ho hst
    simp [countP_last, hd, hov] at this ⊢
    omega
  | sendIdle =>
    rename_i p o _ _ _
    have hp : p.ioType = .kSend := hb.names (.sendPacket w p) (by simp)
    obtain ⟨hd, -⟩ := Purpose.ne_disconnect (.inr hp)
    have := ho hst
    simp [hd] at this ⊢
    omega
  | complete | completeError | handleError | dispatch =>
    have := ho hst
    simp [List.countP_cons] at this ⊢
    omega
  | dequeue hpos =>
    rename_i x ok zero _
    have := ho hst
    by_cases e : x = .disconnect
    · subst e
      simp at this ⊢
      omega
    · simp [e, Ne.symm e] at this ⊢
      omega
  | connectSession =>
    have := ho (.inl (hb.connecting (by simp)))
    simp at this ⊢
    omega
  | setState => simp at hst
  | push => simp at hst
  | _ => 
    have := ho hst
    simp [countP_last] at this ⊢; omega

theorem entered_step (h : SeatStep w v a is is' v') (hb : Base w v (is + M))
    (hcov : Cover (is + M)) (hst : v'.cell.state ≠ 0) (hc : num Instr.creates (is' + M) = 0) :
    refs v'.entry + v'.life.resets = 1 := by
  have he := hb.entered
  cases h with
  | pop | init | construct => simp at hc
  | enter he' =>
    rename_i g o
    have hcr : 0 < num Instr.creates (↑[Instr.enter g] + M) := by simp
    obtain ⟨hst, hh⟩ := hb.creating hcr
    obtain ⟨h₁, h₂⟩ := hb.quiet hcov hh.le
    have hbf := hb.before (.inl hst)
    have hle := Instr.setsState_le (↑[Instr.enter g] + M)
    simp at h₂ hle hbf ⊢
    omega
  | push => exact absurd rfl hst
  | connectSession =>
    have := hb.connecting (by simp)
    exact he (by omega) (by simpa using hc)
  | setState =>
    have := hb.disconnecting (by simp)
    exact he (by omega) (by simpa using hc)
  | dispatched hi =>
    have := hi.count Instr.creates
    refine he hst ?_
    simp [countP_last, this] at hc ⊢
    exact hc
  | reset =>
    have ho := hb.once
    simp [countP_last] at he ho hc ⊢
    have := he hst hc
    omega
  | _ =>
    refine he hst ?_
    simp [countP_last] at hc ⊢
    exact hc

theorem pins_step (h : SeatStep w v a is is' v') (hb : Base w v (is + M)) :
    (v'.conn.ov .disconnect).ops + num Instr.pinned (is' + M) ≤
      refs (v'.conn.ov .disconnect).sessionPtr := by
  have hp := hb.pins
  cases h with
  | init =>
    have hal := (hb.alone (by simp)).2.1
    have := v.conn.ptr_le_ptrs .disconnect
    simp [Conn.init] at hp ⊢
    omega
  | assign =>
    rename_i p session o
    by_cases e : p = .disconnect
    · subst e
      have hs : session = some (v.handle w) := hb.names (.assign w .disconnect session) (by simp)
      have ho := hb.once
      have hle := Instr.pinned_le M
      simp [countP_last, hs] at ho ⊢
      omega
    · have hov : Ov.disconnect ≠ p.ov := by cases p <;> simp [Purpose.ov] at e ⊢
      simp [countP_last, hov, e] at hp ⊢
      exact hp
  | posted hk | notPosted hk =>
    obtain ⟨hd, hov⟩ := Purpose.ne_disconnect hk
    simp [countP_last, hd, hov] at hp ⊢
    omega
  | sendIdle =>
    rename_i p o _ _ _
    have hk : p.ioType = .kSend := hb.names (.sendPacket w p) (by simp)
    obtain ⟨hd, -⟩ := Purpose.ne_disconnect (.inr hk)
    simp at hp ⊢
    omega
  | complete | completeError | handleError | dispatch =>
    simp [List.countP_cons] at hp ⊢
    omega
  | failed =>
    rename_i x g o
    have hx : x ≠ .disconnect := (hb.names (.failed w x g) (by simp)).2
    simp [countP_last, Ne.symm hx] at hp ⊢
    exact hp
  | dispatched hi =>
    rename_i x zero g i o
    have ho := hb.once
    have hle := Instr.pinned_le M
    have hc := hi.count Instr.pinned
    by_cases e : x = .disconnect
    · subst e
      simp [countP_last, hc] at ho ⊢
      omega
    · simp [countP_last, hc, Ne.symm e] at hp ⊢
      exact hp
  | dequeue hpos =>
    rename_i x ok zero _
    by_cases e : x = .disconnect
    · subst e
      simp at hp ⊢
      omega
    · simp [e, Ne.symm e] at hp ⊢
      omega
  | _ =>
    simp [countP_last] at hp ⊢
    omega

theorem types_step (h : SeatStep w v a is is' v') (hb : Base w v (is + M)) :
    (v'.conn.ov .recv).ioType ≠ .kDisconnect ∧ (v'.conn.ov .send).ioType ≠ .kDisconnect := by
  have hr := hb.recv_type
  have hs := hb.send_type
  cases h with
  | init => simp [Conn.init]
  | register hd =>
    rename_i p o
    cases p <;> simp [Purpose.ov, Purpose.ioType, hr, hs] at hd ⊢
  | _ => simpa using ⟨hr, hs⟩

theorem disconnect_type_step (h : SeatStep w v a is is' v') (hb : Base w v (is + M))
    (hcov : Cover (is + M)) (hp : 0 < (v'.conn.ov .disconnect).ops + num Instr.typed (is' + M)) :
    (v'.conn.ov .disconnect).ioType = .kDisconnect := by
  have frame : (v'.conn.ov .disconnect).ioType = (v.conn.ov .disconnect).ioType →
      (v'.conn.ov .disconnect).ops + num Instr.typed (is' + M) ≤
        (v.conn.ov .disconnect).ops + num Instr.typed (is + M) →
      (v'.conn.ov .disconnect).ioType = .kDisconnect :=
    fun e hle => e.trans (hb.disconnect_type (hp.trans_le hle))
  cases h with
  | init =>
    obtain ⟨h₁, h₂⟩ := hb.quiet hcov (hb.creating (by simp)).2.le
    have hle := Instr.typed_le M
    simp [Conn.init] at h₂ hp ⊢
    omega
  | register hne =>
    rename_i p o
    cases p with
    | disconnect => exact absurd rfl hne
    | _ => exact frame (by simp) (by simp)
  | registerDisconnect => simp
  | posted hk | notPosted hk =>
    obtain ⟨hne, hov⟩ := Purpose.ne_disconnect hk
    exact frame (by simp) (by simp [countP_last, hov])
  | dispatched hi =>
    have := hi.count Instr.typed
    refine frame (by simp) ?_
    simp [countP_last, this]
  | dequeue hpos =>
    rename_i x ok zero _
    cases x with
    | disconnect =>
      refine frame (by simp) ?_
      simp
      omega
    | _ => exact frame (by simp) (by simp)
  | _ =>
    refine frame (by simp) ?_
    simp [countP_last, List.countP_cons] <;> omega

theorem connects_step (h : SeatStep w v a is is' v') (hb : Base w v (is + M)) :
    v'.life.connects ≤ 1 ∧ (v'.cell.state = 1 → v'.life.connects = 0) := by
  have hle := hb.connects_le
  have heq := hb.connects_eq
  cases h with
  | connectSession =>
    have := heq (hb.connecting (by simp))
    simp
    omega
  | pop => simp
  | setState => exact ⟨hle, fun e => absurd e (by simp)⟩
  | push => exact ⟨hle, fun e => absurd e (by simp)⟩
  | _ => exact ⟨hle, heq⟩

theorem registers_step (h : SeatStep w v a is is' v') (hb : Base w v (is + M))
    (hcov : Cover (is + M)) :
    v'.life.registers + num Instr.registers (is' + M) ≤ 1 ∧
      (v'.cell.state = 1 ∨ v'.cell.state = 2 → v'.life.registers = 0) := by
  have hle := hb.registers_le
  have heq := hb.registers_eq
  cases h with
  | pop h0 =>
    obtain ⟨-, h₂⟩ := hb.quiet hcov ((hb.tally.free_iff.mp h0).1.le.trans (Nat.zero_le _))
    have := Instr.registers_le M
    simp at h₂ ⊢
    omega
  | disconnect hfree hst =>
    have hr := heq hst
    have hbf := hb.before hst
    have hl := hb.locked
    have := Instr.registers_le M
    have := Instr.setsState_le_locked M
    simp [hfree, hr] at hbf hl ⊢
    omega
  | registerDisconnect =>
    have hbf := hb.before
    have := Instr.setsState_le M
    simp at hle hbf ⊢
    omega
  | connectSession =>
    have := heq (.inl (hb.connecting (by simp)))
    simp [this] at hle ⊢
    omega
  | setState =>
    simp at hle ⊢
    omega
  | push =>
    simp at hle ⊢
    omega
  | dispatched hi =>
    have := hi.count Instr.registers
    simp [countP_last, this] at hle ⊢
    exact ⟨by omega, heq⟩
  | register hne =>
    simp [hne] at hle ⊢
    exact ⟨by omega, heq⟩
  | sendIdle =>
    rename_i p o _ _ _
    have hk : p.ioType = .kSend := hb.names (.sendPacket w p) (by simp)
    obtain ⟨hne, -⟩ := Purpose.ne_disconnect (.inr hk)
    simp [hne] at hle ⊢
    exact ⟨by omega, heq⟩
  | _ =>
    simp [countP_last] at hle ⊢
    exact ⟨by omega, heq⟩

/-- **Every step keeps the invariant of the slot**, below `2⁶⁴` references to it. -/
theorem Base.step (hb : Base w v (is + M)) (h : SeatStep w v a is is' v') (hcov : Cover (is + M))
    (hw : slotIndex (v.handle w) = w) (hlt : v.held (is + M) + 1 < 2 ^ 64) :
    Base w v' (is' + M) where
  tally := tally_step h hb hlt
  entry_eq := entry_step h hb
  ptr_eq := ptr_step h hb
  names := names_step h hb hcov
  creates_le := creates_step h hb
  creating := creating_step h hb hcov
  handle_index := handle_index_step h hb hw
  handle_eq := handle_eq_step h hb
  locked := locked_step h hb
  connecting := connecting_step h hb hcov
  disconnecting := disconnecting_step h hb hcov
  once := once_step h hb
  before := before_step h hb hcov
  entered := entered_step h hb hcov
  pins := pins_step h hb
  recv_type := (types_step h hb).1
  send_type := (types_step h hb).2
  disconnect_type := disconnect_type_step h hb hcov
  connects_le := (connects_step h hb).1
  connects_eq := (connects_step h hb).2
  registers_le := (registers_step h hb hcov).1
  registers_eq := (registers_step h hb hcov).2

/-- A slot that has not been used. -/
def fresh : Seat := ⟨⟨0, 0⟩, 0, none, .fresh, ⟨0, 0, 0, 0⟩, 0, 0⟩

theorem fresh_base (w : Nat) : Base w fresh 0 where
  tally := ⟨rfl, .inl rfl, ⟨fun _ => ⟨rfl, rfl⟩, fun _ => rfl⟩, rfl, rfl⟩
  entry_eq := by
    intro g hg
    cases hg
  ptr_eq := by
    intro x g hg
    cases hg
  names := by simp
  creates_le := by simp
  creating := by simp
  handle_index := .inl rfl
  handle_eq := fun h0 => absurd rfl h0
  locked := rfl
  connecting := by simp
  disconnecting := by simp
  once := by decide
  before := by decide
  entered := fun h0 => absurd rfl h0
  pins := by decide
  recv_type := by decide
  send_type := by decide
  disconnect_type := by decide
  connects_le := by decide
  connects_eq := by decide
  registers_le := by decide
  registers_eq := by decide

end Seat

end IocpServer
