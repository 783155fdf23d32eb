import IocpServer.Server.Local

/-!
# Server — Steps

A step of the engine is a step of one slot, or it is about no slot.

* `Moves`: the two kinds of steps, with the instructions they replace.
* `step_moves`: every step is one of them.
-/

namespace IocpServer

/-- A thread holds a reference for the instructions before this one. -/
def Instr.pays : Instr → Bool
  | .drop _ => true
  | .register _ p | .assign _ p _ | .post _ p => p.ioType == .kAccept
  | _ => false

attribute [simp] Instr.pays.eq_1 Instr.pays.eq_2 Instr.pays.eq_3 Instr.pays.eq_4 Instr.pays.eq_5

namespace Engine

variable {ι : Type} {N kMaxAccept : Nat} {s s' : Engine ι N} {e : Event ι} {w : Nat} {act : Act}
  {is is' fs fs' : List Instr}

/-- The event `e` happens to the slot `w`: `fs` are the instructions about no slot that it takes,
and `fs'` those that it leaves. -/
inductive Touches (s s' : Engine ι N) :
    Event ι → Nat → Act → List Instr → List Instr → List Instr → Prop where
  | run {a : ι} {o : Outcome} {w : Nat} {i : Instr} {rest : List Instr} (hc : s.code a = i :: rest)
      (hi : i.slot = some w) (hp : s'.pendingAccepts = i.pending s.pendingAccepts)
      (ht : s'.tasks = s.tasks ++ i.posts (s.view w) o) :
      Touches s s' (.run a o) w (.run i o) [i] [] (i.spawns (s.view w) o)
  | pop {a : ι} {o : Outcome} {w : Nat} {rest : List Instr} (hc : s.code a = .acquire :: rest)
      (hp : s'.pendingAccepts = s.pendingAccepts) (ht : s'.tasks = s.tasks) :
      Touches s s' (.run a o) w .pop [] [.acquire] []
  | lookup {a : ι} {o : Outcome} {h : Nat} {call : Call} {rest : List Instr}
      (hc : s.code a = .lookup h call :: rest) (hp : s'.pendingAccepts = s.pendingAccepts)
      (ht : s'.tasks = s.tasks) :
      Touches s s' (.run a o) (slotIndex h) (.lookup call) [] [.lookup h call] []
  | task {a : ι} {t : Task} (hp : s'.pendingAccepts = s.pendingAccepts)
      (ht : s.tasks = t :: s'.tasks) : Touches s s' (.task a) t.slot (.task t) [] [] []
  | accepted {w : Nat} (hp : s'.pendingAccepts = s.pendingAccepts) (ht : s'.tasks = s.tasks) :
      Touches s s' (.accepted w) w .accepted [] [] []
  | disconnected {w : Nat} (hp : s'.pendingAccepts = s.pendingAccepts) (ht : s'.tasks = s.tasks) :
      Touches s s' (.disconnected w) w .disconnected [] [] []
  | dequeue {a : ι} {w : Nat} {x : Ov} {ok zero : Bool} (hp : s'.pendingAccepts = s.pendingAccepts)
      (ht : s'.tasks = s.tasks) :
      Touches s s' (.dequeue a w x ok zero) w (.dequeue x ok zero) [] [] []

/-- The event `e` happens to no slot, and `fs'` take the place of `fs`. -/
inductive Idles (kMaxAccept : Nat) (s s' : Engine ι N) :
    Event ι → List Instr → List Instr → Prop where
  | postAccept {a : ι} (hp : s'.pendingAccepts = s.pendingAccepts) :
      Idles kMaxAccept s s' (.postAccept a) [] [.load]
  | call {a : ι} {h : Nat} {call : Call} (hp : s'.pendingAccepts = s.pendingAccepts) :
      Idles kMaxAccept s s' (.call a h call) [] [.lookup h call]
  | full {a : ι} {o : Outcome} {rest : List Instr} (hc : s.code a = .load :: rest)
      (hle : kMaxAccept ≤ s.pendingAccepts) (hp : s'.pendingAccepts = s.pendingAccepts) :
      Idles kMaxAccept s s' (.run a o) [.load] []
  | load {a : ι} {o : Outcome} {rest : List Instr} (hc : s.code a = .load :: rest)
      (hlt : s.pendingAccepts < kMaxAccept) (hp : s'.pendingAccepts = s.pendingAccepts) :
      Idles kMaxAccept s s' (.run a o) [.load] [.cas s.pendingAccepts]
  | cas {a : ι} {o : Outcome} {rest : List Instr} (hc : s.code a = .cas s.pendingAccepts :: rest)
      (hp : s'.pendingAccepts = s.pendingAccepts + 1) :
      Idles kMaxAccept s s' (.run a o) [.cas s.pendingAccepts] [.acquire]
  | retry {a : ι} {o : Outcome} {current : Nat} {rest : List Instr}
      (hc : s.code a = .cas current :: rest) (hp : s'.pendingAccepts = s.pendingAccepts) :
      Idles kMaxAccept s s' (.run a o) [.cas current] [.load]
  | rollback {a : ι} {o : Outcome} {rest : List Instr} (hc : s.code a = .rollback :: rest)
      (hp : s'.pendingAccepts = sub64 s.pendingAccepts 1) :
      Idles kMaxAccept s s' (.run a o) [.rollback] []
  | empty {a : ι} {o : Outcome} {rest : List Instr} (hc : s.code a = .acquire :: rest)
      (hall : ∀ w < N, (s.view w).cell.state ≠ 0) (hp : s'.pendingAccepts = s.pendingAccepts) :
      Idles kMaxAccept s s' (.run a o) [.acquire] [.rollback]
  | lookup {a : ι} {o : Outcome} {h : Nat} {call : Call} {rest : List Instr}
      (hc : s.code a = .lookup h call :: rest) (hw : slotIndex h < N)
      (he : (s.view (slotIndex h)).entry = none) (hp : s'.pendingAccepts = s.pendingAccepts) :
      Idles kMaxAccept s s' (.run a o) [.lookup h call] []

/-- One thread has `fs'` in the place of `fs`, or nothing is replaced. -/
inductive Replaces [DecidableEq ι] (s s' : Engine ι N) (fs fs' : List Instr) : Prop where
  | thread (a : ι) (rest : List Instr) (hc : s.code a = fs ++ rest)
      (hc' : s'.code = Function.update s.code a (fs' ++ rest)) : Replaces s s' fs fs'
  | nothing (h : fs = []) (h' : fs' = []) (hc : s'.code = s.code) : Replaces s s' fs fs'

theorem putCode_view [DecidableEq ι] (s : Engine ι N) (a : ι) (code : List Instr) (x : Nat) :
    (s.putCode a code).view x = s.view x := rfl

@[simp] theorem putCode_self [DecidableEq ι] (s : Engine ι N) (a : ι) (l : List Instr) :
    (s.putCode a l).code a = l := Function.update_self ..

theorem putCode_other [DecidableEq ι] {a b : ι} (h : b ≠ a) (s : Engine ι N) (l : List Instr) :
    (s.putCode a l).code b = s.code b := Function.update_of_ne h ..

/-- The next instruction of a thread is replaced. -/
theorem Replaces.next [DecidableEq ι] {t : Engine ι N} {a : ι} {i : Instr} {l rest : List Instr}
    (hc : s.code a = i :: rest) (ht : t.code = s.code) :
    Replaces s (t.putCode a (l ++ rest)) [i] l :=
  .thread a rest hc (by rw [← ht]; rfl)

/-- A thread starts. -/
theorem Replaces.start [DecidableEq ι] {t : Engine ι N} {a : ι} {l : List Instr} (ha : s.code a = [])
    (ht : t.code = s.code) : Replaces s (t.putCode a l) [] l :=
  .thread a [] ha (by rw [List.append_nil, ← ht]; rfl)

/-- The two kinds of steps. -/
inductive Moves [DecidableEq ι] (kMaxAccept : Nat) (s s' : Engine ι N) (e : Event ι) : Prop where
  | slot {w : Nat} {act : Act} {is is' fs fs' : List Instr} (hw : w < N)
      (hs : SeatStep w (s.view w) act is is' (s'.view w)) (ho : ∀ x ≠ w, s'.view x = s.view x)
      (ht : Touches s s' e w act is fs fs') (hc : Replaces s s' (is ++ fs) (is' ++ fs'))
  | idle {fs fs' : List Instr} (ho : ∀ x, s'.view x = s.view x) (ht : s'.tasks = s.tasks)
      (hi : Idles kMaxAccept s s' e fs fs') (hc : Replaces s s' fs fs')

variable [Fintype ι]

/-- Everything that is to be executed. -/
def all (s : Engine ι N) : Multiset Instr := total (fun l : List Instr => (l : Multiset Instr)) s.code

/-- What is to be executed about the slot `w`. -/
def codeAt (s : Engine ι N) (w : Nat) : Multiset Instr := s.all.filter (·.slot = some w)

/-- What a thread needs something for comes before an instruction about the same slot that has it. -/
def Covered (n p : Instr → Bool) : List Instr → Prop
  | [] => True
  | i :: l => (n i = true → ∃ j ∈ i :: l, j.slot = i.slot ∧ p j = true) ∧ Covered n p l

/-- **The invariant of the engine.** -/
structure Good (s : Engine ι N) : Prop where
  rep : s.set.Rep
  base : ∀ w < N, (s.view w).Base w (s.codeAt w)
  covered : ∀ a, Covered Instr.needs Instr.pays (s.code a)
  inRange : ∀ a, ∀ i ∈ s.code a, ∀ w, i.slot = some w → w < N
  tasks : ∀ t ∈ s.tasks, t.slot < N
  blank : ∀ w, N ≤ w → s.sessions w = .fresh

/-- Every `SharedPoolPtr` takes 16 bytes of the address space: four for each slot, and those of the
threads. -/
def Fits (s : Engine ι N) : Prop := 16 * (4 * N + weight Instr.holds s.all) < 2 ^ 64

theorem Replaces.all [DecidableEq ι] (h : Replaces s s' fs fs') :
    ∃ R, s.all = ↑fs + R ∧ s'.all = ↑fs' + R := by
  cases h with
  | thread a rest hc hc' =>
    rw [Engine.all, Engine.all, hc']
    exact total_replace hc fs'
  | nothing h h' hc =>
    refine ⟨s.all, ?_, ?_⟩
    · rw [h, Multiset.coe_nil, zero_add]
    · rw [h', Multiset.coe_nil, zero_add, Engine.all, hc, Engine.all]

theorem mem_all {i : Instr} : i ∈ s.all ↔ ∃ a, i ∈ s.code a := by
  rw [Engine.all, mem_total]
  simp only [Multiset.mem_coe]

theorem mem_codeAt {i : Instr} : i ∈ s.codeAt w ↔ (∃ a, i ∈ s.code a) ∧ i.slot = some w := by
  rw [codeAt, Multiset.mem_filter, mem_all]

theorem Covered.paid {n p : Instr → Bool} {l : List Instr} (h : Covered n p l) {i : Instr}
    (hi : i ∈ l) (hn : n i = true) : ∃ j ∈ l, j.slot = i.slot ∧ p j = true := by
  induction l with
  | nil => cases hi
  | cons k l ih =>
    rcases List.mem_cons.mp hi with rfl | hi
    · exact h.1 hn
    · obtain ⟨j, hj, hs, hp⟩ := ih h.2 hi
      exact ⟨j, List.mem_cons_of_mem k hj, hs, hp⟩

theorem pays_le (C : Multiset Instr) :
    num Instr.enters C + num Instr.pays C ≤ weight Instr.holds C := by
  induction C using Multiset.induction_on with
  | empty => exact Nat.le_refl _
  | cons i C ih =>
      rw [num_cons, num_cons, weight_cons]
      cases i <;> simp <;> (try split) <;> omega

theorem Good.cover (hg : s.Good) (w : Nat) : Seat.Cover (s.codeAt w) := by
  intro i hi hn
  obtain ⟨⟨a, ha⟩, hs⟩ := mem_codeAt.mp hi
  obtain ⟨j, hj, hjs, hp⟩ := (hg.covered a).paid ha hn
  have hpos := num_pos (q := Instr.pays) (mem_codeAt.mpr ⟨⟨a, hj⟩, hjs.trans hs⟩) hp
  have := pays_le (s.codeAt w)
  omega

theorem Fits.held (hf : s.Fits) (hw : w < N) : (s.view w).held (s.codeAt w) + 1 < 2 ^ 64 := by
  have hle : weight Instr.holds (s.codeAt w) ≤ weight Instr.holds s.all :=
    weight_le (Multiset.filter_le _ _)
  have h₁ := refs_le (s.view w).entry
  have h₂ := ptrs_le (s.view w).conn.ov
  rw [Fits] at hf
  rw [Seat.held]
  omega

variable [DecidableEq ι]

/-- What the instructions about no slot do. -/
theorem step_idle (hN : N < 2 ^ 32) (hg : s.Good) {a : ι} {o : Outcome} {i : Instr}
    {t : Engine ι N} {l rest : List Instr} (hc : s.code a = i :: rest) (hi : i.slot = none)
    (h : s.perform kMaxAccept o i = some (t, l)) :
    Moves kMaxAccept s (t.putCode a (l ++ rest)) (.run a o) ∧ t.set.Rep := by
  have hr := hg.rep
  cases i with
  | load =>
    rcases Nat.lt_or_ge s.pendingAccepts kMaxAccept with hlt | hle
    · simp only [perform, if_neg hlt.not_ge] at h
      cases h
      exact ⟨.idle (fun _ => rfl) rfl (.load hc hlt rfl) (.next hc rfl), hr⟩
    · rw [perform_full kMaxAccept o hle] at h
      cases h
      exact ⟨.idle (fun _ => rfl) rfl (.full hc hle rfl) (.next hc rfl), hr⟩
  | cas current =>
    simp only [perform] at h
    split at h
    · rename_i he
      obtain ⟨rfl, -⟩ := he
      cases h
      exact ⟨.idle (fun _ => rfl) rfl (.cas hc rfl) (.next hc rfl), hr⟩
    · cases h
      exact ⟨.idle (fun _ => rfl) rfl (.retry hc rfl) (.next hc rfl), hr⟩
  | rollback =>
    obtain ⟨hp, ht, hcode, hrep, ho, rfl⟩ := perform_rollback h
    exact ⟨.idle ho ht (.rollback hc hp) (.next hc hcode), hrep ▸ hr⟩
  | acquire =>
    obtain ⟨hp, ht, hcode, hrep, ⟨w, hw, hs, ho⟩ | ⟨hall, ho, rfl⟩⟩ := perform_acquire hN hr h
    · exact ⟨.slot hw hs ho (.pop hc hp ht) (by rw [List.append_nil]; exact .next hc hcode), hrep⟩
    · exact ⟨.idle ho ht (.empty hc hall hp) (.next hc hcode), hrep⟩
  | lookup handle call =>
    obtain ⟨hp, ht, hcode, hrep, hw, ⟨hs, ho⟩ | ⟨he, ho, rfl⟩⟩ :=
      perform_lookup hN hr (fun w hw => (hg.base w hw).entry_eq) h
    · exact ⟨.slot hw hs ho (.lookup hc hp ht) (by rw [List.append_nil]; exact .next hc hcode), hrep⟩
    · exact ⟨.idle ho ht (.lookup hc hw he hp) (.next hc hcode), hrep⟩
  | _ => cases hi

/-- **Every step is a step of one slot, or about no slot.** -/
theorem step_moves (hN : N < 2 ^ 32) (hg : s.Good) (h : s.step kMaxAccept e = some s') :
    Moves kMaxAccept s s' e ∧ s'.set.Rep := by
  have hr := hg.rep
  have hblank : ∀ w, (s.sessions w).link = .accepting ∨ (∃ x, 0 < ((s.sessions w).ov x).ops) →
      w < N := by
    intro w hw
    by_contra hge
    rw [hg.blank w (not_lt.mp hge)] at hw
    rcases hw with hw | ⟨x, hw⟩ <;> cases hw
  cases e with
  | postAccept a =>
    simp only [step] at h
    split at h
    · rename_i ha
      cases h
      exact ⟨.idle (fun _ => rfl) rfl (.postAccept rfl) (.start ha rfl), hr⟩
    · cases h
  | call a handle call =>
    simp only [step] at h
    split at h
    · rename_i ha
      cases h
      exact ⟨.idle (fun _ => rfl) rfl (.call rfl) (.start ha rfl), hr⟩
    · cases h
  | task a =>
    simp only [step] at h
    split at h
    · rename_i t tasks ht
      split at h
      · rename_i ha
        cases h
        have hw := hg.tasks t (ht ▸ List.mem_cons_self)
        exact ⟨.slot hw .task (fun _ _ => rfl) (.task rfl ht) (.start ha rfl), hr⟩
      · cases h
    · cases h
  | accepted w =>
    simp only [step] at h
    split at h
    · rename_i hl
      cases h
      have hs : SeatStep w (s.view w) .accepted [] []
          ((s.putConn w { s.sessions w with link := .connected }).view w) := by
        rw [view_putConn]
        exact .accepted hl
      exact ⟨.slot (hblank w (.inl hl)) hs (fun _ hx => view_putConn_other hx _ _)
        (.accepted rfl rfl) (.nothing rfl rfl rfl), hr⟩
    · cases h
  | disconnected w =>
    simp only [step] at h
    split at h
    · rename_i hd
      cases h
      have hs : SeatStep w (s.view w) .disconnected [] []
          ((s.putConn w { s.sessions w with link := .closed }).view w) := by
        rw [view_putConn]
        exact .disconnected hd
      exact ⟨.slot (hblank w (.inr ⟨.disconnect, hd⟩)) hs (fun _ hx => view_putConn_other hx _ _)
        (.disconnected rfl rfl) (.nothing rfl rfl rfl), hr⟩
    · cases h
  | dequeue a w x ok zero =>
    simp only [step] at h
    split at h
    · rename_i hc
      obtain ⟨ha, ho, hl⟩ := hc
      cases h
      have hs : SeatStep w (s.view w) (.dequeue x ok zero) [] [.complete w x ok zero]
          (((s.putIo w x fun io => { io with ops := io.ops - 1 }).putCode a
            [.complete w x ok zero]).view w) := by
        rw [putCode_view, putIo, view_putConn]
        exact .dequeue ho hl
      refine ⟨.slot (hblank w (.inr ⟨x, ho⟩)) hs (fun y hy => ?_) (.dequeue rfl rfl)
        (.start ha rfl), hr⟩
      rw [putCode_view, putIo, view_putConn_other hy]
    · cases h
  | run a o =>
    simp only [step] at h
    split at h
    · cases h
    · rename_i i rest hc
      obtain ⟨⟨t, l⟩, hp, h⟩ := Option.bind_eq_some_iff.mp h
      cases h
      cases hi : i.slot with
      | none => exact step_idle hN hg hc hi hp
      | some w =>
        have hw := hg.inRange a i (hc ▸ List.mem_cons_self) w hi
        have hmem : i ∈ s.codeAt w := mem_codeAt.mpr ⟨⟨a, hc ▸ List.mem_cons_self⟩, hi⟩
        have hact := perform_local hN hr hw hi (hg.base w hw) hmem hp
        obtain ⟨is, hs, rfl⟩ := hact.seat
        exact ⟨.slot hw hs hact.other (.run hc hi hact.pending hact.tasks)
          (by rw [List.append_nil]; exact .next hc hact.code), hact.rep⟩

end Engine

end IocpServer
