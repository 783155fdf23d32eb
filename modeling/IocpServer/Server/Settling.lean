import IocpServer.Server.Progress
import IocpServer.Support.Halting

/-!
# Server — Settling

The threads of the server come to rest.  `PostAccept` goes round its loop only as long as it raises
`pendingAccepts_`, its compare-exchange fails only when another thread has changed the counter, and
everything else that a thread does leads to less to do.

* `Instr.work`: how many steps an instruction can lead to.
* `perform_pays`: it leaves less work.
* `settles`: in every run the threads' own steps are bounded, and they end when all is done.
-/

namespace IocpServer

/-- The work of one round of `PostAccept`, with `n` threads. -/
def lap (n : Nat) : Nat := 4 * n + 10

/-- The work of the room for one more accept. -/
def room (n : Nat) : Nat := 10 * n + 40

namespace Purpose

/-- The work of the Winsock call of a `Register` function. -/
def work (n : Nat) : Purpose → Nat
  | .accept _ => 2 * lap n + 4
  | .disconnect => 1
  | .welcome _ => 3 * lap n + 12
  | .firstRecv _ | .nextRecv | .plain | .nextSend => 2 * lap n + 8

end Purpose

namespace Instr

/-- The work of an instruction, with `n` threads, `m` sessions at most to broadcast to, and
`pendingAccepts_` at `p`: a `cas` that will fail goes round once more. -/
def work (n m p : Nat) : Instr → Nat
  | .load => lap n
  | .cas current => if current = p then 4 * n + 9 else 4 * n + 11
  | .rollback => 12 * n + 41
  | .setListener _ | .account _ | .accountEnd _ | .setAccountId .. | .taskEnd _ => 1
  | .acquire => 12 * n + 46
  | .init _ => 12 * n + 45
  | .construct _ => 12 * n + 44
  | .enter _ => 12 * n + 43
  | .give _ => 12 * n + 42
  | .register _ p => p.work n + lap n + 3
  | .assign _ p _ => p.work n + lap n + 2
  | .post _ p => p.work n
  | .complete .. => 16 * n + 7 * lap n + 78
  | .countDown _ => 16 * n + 51
  | .handleError .. => 3 * lap n + 11
  | .failed .. => 2 * lap n + 8
  | .dispatch .. => 6 * lap n + 24
  | .dispatched .. => 5 * lap n + 21
  | .handleAccept _ => 4 * lap n + 19
  | .connect .. => 4 * lap n + 18
  | .connectSession .. => 4 * lap n + 17
  | .sendPacket _ p => p.work n + lap n + 4
  | .onSend _ | .onRecv _ => 3 * lap n + 12
  | .disconnect _ => lap n + 6
  | .setState _ => lap n + 5
  | .reset _ | .drop _ => lap n + 2
  | .push _ => lap n + 1
  | .lookup .. => 5 * lap n + 21
  | .logIn _ => 4
  | .logOut _ => 2
  | .execute _ => 3 * lap n + 17 + m * (5 * lap n + 21)

/-- The compare-exchange of `PostAccept`. -/
def exchanges : Instr → Bool
  | .cas _ => true
  | _ => false

/-- What an instruction takes from the room for accepts, and the exchanges that it makes fail. -/
def refunds (n : Nat) : Instr → Nat
  | .countDown _ => room n + 2 * n
  | _ => 0

end Instr

attribute [simp] Purpose.work.eq_1 Purpose.work.eq_2 Purpose.work.eq_3 Purpose.work.eq_4
  Purpose.work.eq_5 Purpose.work.eq_6 Purpose.work.eq_7 Instr.work.eq_1 Instr.work.eq_2
  Instr.work.eq_3 Instr.work.eq_4 Instr.work.eq_5 Instr.work.eq_6 Instr.work.eq_7 Instr.work.eq_8
  Instr.work.eq_9 Instr.work.eq_10 Instr.work.eq_11 Instr.work.eq_12 Instr.work.eq_13
  Instr.work.eq_14 Instr.work.eq_15 Instr.work.eq_16 Instr.work.eq_17 Instr.work.eq_18
  Instr.work.eq_19 Instr.work.eq_20 Instr.work.eq_21 Instr.work.eq_22 Instr.work.eq_23
  Instr.work.eq_24 Instr.work.eq_25 Instr.work.eq_26 Instr.work.eq_27 Instr.work.eq_28
  Instr.work.eq_29 Instr.work.eq_30 Instr.work.eq_31 Instr.work.eq_32 Instr.work.eq_33
  Instr.work.eq_34 Instr.work.eq_35 Instr.work.eq_36 Instr.work.eq_37
  Instr.exchanges.eq_1 Instr.exchanges.eq_2 Instr.refunds.eq_1 Instr.refunds.eq_2

variable {n m p w : Nat} {v v' : Seat} {i : Instr} {o : Outcome} {is : List Instr}

/-! ### One slot -/

theorem work_after (w : Nat) (q : Purpose) (b : Bool) :
    ((q.after w b).map (Instr.work n m p)).sum < q.work n := by
  cases q with
  | welcome k | firstRecv k =>
    cases k <;> cases b <;> simp [Purpose.after] <;> omega
  | _ => cases b <;> simp [Purpose.after] <;> omega

theorem work_failed (w : Nat) {q : Purpose} (hq : q.ioType = .kRecv ∨ q.ioType = .kSend) :
    lap n + 1 + ((q.after w false).map (Instr.work n m p)).sum < q.work n := by
  cases q with
  | accept | disconnect => simp at hq
  | welcome k | firstRecv k => cases k <;> simp [Purpose.after] <;> omega
  | _ =>
    simp [Purpose.after]
    omega

theorem work_last (v : Seat) (r : Option Nat) :
    ((v.last r).map (Instr.work n m p)).sum ≤ lap n + 1 := by
  cases r with
  | none => simp [Seat.last]
  | some g =>
    simp only [Seat.last, Option.elim]
    split <;> simp

theorem work_call (w : Nat) (call : Call) :
    ((call.body w).map (Instr.work n m p)).sum ≤ 4 * lap n + 18 := by
  cases call <;> simp [Call.body]
  all_goals omega

theorem Handler.work {zero : Bool} {t : IoType} (h : Handler w zero t i) :
    i.work n m p ≤ 4 * lap n + 19 := by
  cases h <;> simp <;> omega

theorem work_accepts (v : Seat) (x : Ov) (g : Nat) :
    ((v.accepts x g).map (Instr.work n m p)).sum ≤ 16 * n + 51 := by
  rw [Seat.accepts]
  split <;> simp

theorem work_lookups (handles : List Nat) :
    ((handles.map fun handle => Instr.lookup handle .send).map (Instr.work n m p)).sum =
      handles.length * (5 * lap n + 21) := by
  simp [Function.comp_def]

/-- **A step of a slot leaves less work**, whatever it starts besides. -/
theorem SeatStep.pays (h : SeatStep w v (.run i o) [i] is v') (hm : o.handles.length ≤ m) :
    (is.map (Instr.work n m p)).sum + ((i.spawns v o).map (Instr.work n m p)).sum + i.refunds n <
      i.work n m p := by
  cases h with
  | giveNone he => simp [Instr.spawns, he]
  | give he => simp [Instr.spawns, he, lap]; omega
  | overflow hp =>
    rename_i q _
    have := work_after (n := n) (m := m) (p := p) w q false
    simp [Instr.spawns]
    omega
  | posted hq =>
    rename_i q _ _
    have := work_after (n := n) (m := m) (p := p) w q true
    cases q <;> simp at hq <;> simpa [Instr.spawns] using this
  | notPosted hq =>
    rename_i q _
    have h₁ := work_failed (n := n) (m := m) (p := p) w hq
    have h₂ := work_last (n := n) (m := m) (p := p) v (v.conn.ov q.ov).sessionPtr
    cases q <;> simp at hq <;> simp [Instr.spawns] at h₁ h₂ ⊢ <;> omega
  | assign =>
    rename_i q session
    have := work_last (n := n) (m := m) (p := p) v (v.conn.ov q.ov).sessionPtr
    simp [Instr.spawns]
    omega
  | failed =>
    rename_i x g
    have := work_last (n := n) (m := m) (p := p) v (v.conn.ov x).sessionPtr
    simp [Instr.spawns]
    omega
  | dispatched hi =>
    rename_i x zero g i
    have h₁ := work_last (n := n) (m := m) (p := p) v (v.conn.ov x).sessionPtr
    have h₂ := hi.work (n := n) (m := m) (p := p)
    simp [Instr.spawns]
    omega
  | reset =>
    have := work_last (n := n) (m := m) (p := p) v v.entry
    simp [Instr.spawns]
    omega
  | drop =>
    rename_i g
    have := work_last (n := n) (m := m) (p := p) v (some g)
    simp [Instr.spawns]
    omega
  | complete | completeError =>
    rename_i x zero g hg
    have := work_accepts (n := n) (m := m) (p := p) v x g
    simp [Instr.spawns]
    omega
  | sendFull =>
    rename_i q _ _
    have := work_after (n := n) (m := m) (p := p) w q false
    simp [Instr.spawns]
    omega
  | sendBusy =>
    rename_i q _ _ _
    have := work_after (n := n) (m := m) (p := p) w q true
    simp [Instr.spawns]
    omega
  | connectLate =>
    rename_i k _ _
    have := work_after (n := n) (m := m) (p := p) w (.firstRecv k) false
    simp [Instr.spawns] at this ⊢
    omega
  | execute =>
    rename_i task
    have h₁ := Nat.mul_le_mul_right (5 * lap n + 21) hm
    have h₂ := work_lookups (n := n) (m := m) (p := p) o.handles
    cases hk : task.kind <;> simp [Instr.spawns, TaskKind.body, hk] at h₂ ⊢ <;> omega
  | countDown => simp [Instr.spawns, lap, room]; omega
  | _ => simp [Instr.spawns] <;> omega

theorem SeatStep.work_pop (h : SeatStep w v .pop [] is v') :
    (is.map (Instr.work n m p)).sum < 12 * n + 46 := by
  cases h
  simp

theorem SeatStep.work_lookup {call : Call} (h : SeatStep w v (.lookup call) [] is v') :
    (is.map (Instr.work n m p)).sum < 5 * lap n + 21 := by
  cases h
  have := work_call (n := n) (m := m) (p := p) w call
  simp
  omega

/-- What is to be done grows by two for each exchange that comes to fail. -/
theorem weight_work_le (q : Nat) (C : Multiset Instr) :
    weight (Instr.work n m q) C ≤ weight (Instr.work n m p) C + 2 * num Instr.exchanges C := by
  induction C using Multiset.induction_on with
  | empty => simp
  | cons i C ih =>
    rw [weight_cons, weight_cons, num_cons]
    cases i with
    | cas current =>
      simp
      split <;> split <;> omega
    | _ =>
      simp
      omega

/-- Only `PostAccept` makes exchanges. -/
theorem SeatStep.exchanges {a : Act} {is is' : List Instr} (h : SeatStep w v a is is' v') :
    is'.countP Instr.exchanges = 0 := by
  cases h with
  | dispatched hi => simp [countP_last, hi.count Instr.exchanges]
  | _ => simp [countP_last]

theorem exchanges_spawns (v : Seat) (o : Outcome) (i : Instr) :
    (i.spawns v o).countP Instr.exchanges = 0 := by
  cases i with
  | give k =>
    simp only [Instr.spawns]
    split <;> simp
  | post k p => cases p <;> simp [Instr.spawns]
  | execute t =>
    simp only [Instr.spawns]
    split <;> simp
  | _ => simp [Instr.spawns]

namespace Engine

variable {ι : Type} {N kMaxAccept : Nat} {s s' t : Engine ι N} {e : Event ι} {es : List (Event ι)}
  {l rest : List Instr} {a : ι}

/-- The room for accepts and the instructions together. -/
def work [Fintype ι] (kMaxAccept : Nat) (s : Engine ι N) : Nat :=
  weight (Instr.work (Fintype.card ι) N s.pendingAccepts) s.all +
    room (Fintype.card ι) * (kMaxAccept - s.pendingAccepts)

/-- A thread goes on: `compare_exchange_weak` does not fail spuriously, and `Broadcast` lists no more
sessions than there are. -/
def Goes (s : Engine ι N) : Event ι → Prop
  | .run a o => o.handles.length ≤ N ∧
      ((s.code a).head? = some (.cas s.pendingAccepts) → o.ok = true)
  | _ => False

/-- The instructions `l` take the place of `i`. -/
structure Pays (kMaxAccept n m : Nat) (s t : Engine ι N) (i : Instr) (l : List Instr) : Prop where
  code : t.code = s.code
  loops : l.countP Instr.exchanges = 0 ∨ ∃ c < kMaxAccept, l = [.cas c]
  count : t.pendingAccepts < 2 ^ 64
  paid : (l.map (Instr.work n m t.pendingAccepts)).sum + room n * (kMaxAccept - t.pendingAccepts) +
      (if t.pendingAccepts = s.pendingAccepts then 0 else 2 * n) <
    i.work n m s.pendingAccepts + room n * (kMaxAccept - s.pendingAccepts)

/-- One accept less makes room for one. -/
theorem room_le {p q : Nat} (h : kMaxAccept - q ≤ kMaxAccept - p + 1) :
    room n * (kMaxAccept - q) ≤ room n * (kMaxAccept - p) + room n := by
  have := Nat.mul_le_mul_left (room n) h
  rwa [Nat.mul_add, Nat.mul_one] at this

theorem sub64_room (kMaxAccept : Nat) {p : Nat} (hp : p < 2 ^ 64) :
    kMaxAccept - sub64 p 1 ≤ kMaxAccept - p + 1 ∧ sub64 p 1 < 2 ^ 64 := by
  rw [sub64, u64]
  omega

/-- An instruction that leaves the counter alone. -/
theorem Pays.still (hcode : t.code = s.code)
    (hloops : l.countP Instr.exchanges = 0 ∨ ∃ c < kMaxAccept, l = [.cas c])
    (hp : s.pendingAccepts < 2 ^ 64) (ht : t.pendingAccepts = s.pendingAccepts)
    (hlt : (l.map (Instr.work n m s.pendingAccepts)).sum < i.work n m s.pendingAccepts) :
    Pays kMaxAccept n m s t i l := by
  refine ⟨hcode, hloops, ht ▸ hp, ?_⟩
  rw [ht, if_pos rfl]
  omega

/-- An instruction that takes one from the counter. -/
theorem Pays.down (hcode : t.code = s.code) (hloops : l.countP Instr.exchanges = 0)
    (hp : s.pendingAccepts < 2 ^ 64) (ht : t.pendingAccepts = sub64 s.pendingAccepts 1)
    (hlt : (l.map (Instr.work n m t.pendingAccepts)).sum + (room n + 2 * n) <
      i.work n m s.pendingAccepts) : Pays kMaxAccept n m s t i l := by
  obtain ⟨hle, hcount⟩ := sub64_room kMaxAccept hp
  have hroom := room_le (n := n) hle
  refine ⟨hcode, .inl hloops, ht ▸ hcount, ?_⟩
  rw [← ht] at hroom
  split <;> omega

variable [Fintype ι]

/-- **An instruction about a slot leaves less work.** -/
theorem perform_pays_slot (hN : N < 2 ^ 32) (hg : s.Good) (hc : s.code a = i :: rest)
    (hi : i.slot = some w) (h : s.perform kMaxAccept o i = some (t, l)) (hm : o.handles.length ≤ m)
    (hp : s.pendingAccepts < 2 ^ 64) : Pays kMaxAccept n m s t i l := by
  have hw := hg.inRange a i (hc ▸ List.mem_cons_self) w hi
  have hmem : i ∈ s.codeAt w := mem_codeAt.mpr ⟨⟨a, hc ▸ List.mem_cons_self⟩, hi⟩
  have hact := perform_local hN hg.rep hw hi (hg.base w hw) hmem h
  obtain ⟨is, hs, rfl⟩ := hact.seat
  have hloops : (is ++ i.spawns (s.view w) o).countP Instr.exchanges = 0 := by
    rw [List.countP_append, hs.exchanges, exchanges_spawns]
  have hpays := fun p => hs.pays (n := n) (p := p) hm
  have hcount := hact.pending
  cases i with
  | countDown g =>
    have hpays := hpays t.pendingAccepts
    refine .down hact.code hloops hp hcount ?_
    rw [List.map_append, List.sum_append]
    simpa [Nat.add_assoc] using hpays
  | _ =>
    have hpays := hpays s.pendingAccepts
    refine .still hact.code (.inl hloops) hp hcount ?_
    rw [List.map_append, List.sum_append]
    exact (Nat.le_add_right _ _).trans_lt hpays

/-- **So does one about no slot.** -/
theorem perform_pays_idle (hN : N < 2 ^ 32) (hg : s.Good) (hi : i.slot = none)
    (h : s.perform kMaxAccept o i = some (t, l)) (hok : i = .cas s.pendingAccepts → o.ok = true)
    (hb : Below kMaxAccept i) (hk : kMaxAccept < 2 ^ 64) (hp : s.pendingAccepts < 2 ^ 64) :
    Pays kMaxAccept n m s t i l := by
  cases i with
  | load =>
    rcases Nat.lt_or_ge s.pendingAccepts kMaxAccept with hlt | hle
    · simp only [perform, if_neg hlt.not_ge] at h
      cases h
      exact .still rfl (.inr ⟨_, hlt, rfl⟩) hp rfl (by simp [lap])
    · rw [perform_full kMaxAccept o hle] at h
      cases h
      exact .still rfl (.inl rfl) hp rfl (by simp [lap])
  | cas current =>
    simp only [perform] at h
    split at h
    · rename_i he
      obtain ⟨rfl, -⟩ := he
      cases h
      have hlt : s.pendingAccepts < kMaxAccept := hb
      refine ⟨rfl, .inl rfl, show s.pendingAccepts + 1 < 2 ^ 64 by omega, ?_⟩
      have hroom : room n * (kMaxAccept - s.pendingAccepts) =
          room n * (kMaxAccept - (s.pendingAccepts + 1)) + room n := by
        rw [← Nat.mul_succ]
        congr 1
        omega
      simp [room] at hroom ⊢
      omega
    · rename_i hne
      cases h
      have hne : current ≠ s.pendingAccepts := by
        rintro rfl
        exact hne ⟨rfl, hok rfl⟩
      exact .still rfl (.inl rfl) hp rfl (by simp [lap, hne])
  | rollback =>
    obtain ⟨hcount, -, hcode, -, -, rfl⟩ := perform_rollback h
    exact .down hcode rfl hp hcount (by simp [room]; omega)
  | acquire =>
    obtain ⟨hcount, -, hcode, -, ⟨w, -, hs, -⟩ | ⟨-, -, rfl⟩⟩ := perform_acquire hN hg.rep h
    · exact .still hcode (.inl hs.exchanges) hp hcount (by simpa using hs.work_pop)
    · exact .still hcode (.inl rfl) hp hcount (by simp)
  | lookup handle call =>
    obtain ⟨hcount, -, hcode, -, -, ⟨hs, -⟩ | ⟨-, -, rfl⟩⟩ :=
      perform_lookup hN hg.rep (fun w hw => (hg.base w hw).entry_eq) h
    · exact .still hcode (.inl hs.exchanges) hp hcount (by simpa using hs.work_lookup)
    · exact .still hcode (.inl rfl) hp hcount (by simp)
  | _ => cases hi

/-! ### Runs -/

/-- The next instruction of a thread may be the exchange of `PostAccept`, with a value below the
limit. -/
def Loops (kMaxAccept : Nat) (l : List Instr) : Prop :=
  l.tail.countP Instr.exchanges = 0 ∧ ∀ i ∈ l.head?, Below kMaxAccept i

omit [Fintype ι] in
theorem loops_of_none (h : l.countP Instr.exchanges = 0) : Loops kMaxAccept l := by
  refine ⟨Nat.le_zero.mp (h ▸ (List.tail_sublist l).countP_le), fun i hi => ?_⟩
  have hnone := List.countP_eq_zero.mp h i (List.mem_of_mem_head? hi)
  cases i with
  | cas => exact absurd rfl hnone
  | _ => trivial

/-- **What the work is counted by.** -/
structure Turning (kMaxAccept : Nat) (s : Engine ι N) : Prop where
  good : s.Good
  count : s.pendingAccepts < 2 ^ 64
  loops : ∀ a, Loops kMaxAccept (s.code a)

theorem start_turning (hN : N < 2 ^ 32) : (start ι N).Turning kMaxAccept :=
  ⟨start_good hN, Nat.two_pow_pos 64, fun _ => loops_of_none rfl⟩

/-- One exchange for each thread. -/
theorem Turning.exchanges_le (ht : s.Turning kMaxAccept) :
    num Instr.exchanges s.all ≤ Fintype.card ι := by
  rw [num, all, countP_total]
  refine (Finset.sum_le_card_nsmul Finset.univ _ 1 fun a _ => ?_).trans (by simp)
  have h := (ht.loops a).1
  show num Instr.exchanges (s.code a : Multiset Instr) ≤ 1
  rw [num_coe]
  cases hc : s.code a with
  | nil => simp
  | cons i l =>
    rw [hc, List.tail_cons] at h
    rw [List.countP_cons]
    split <;> omega

variable [DecidableEq ι]

omit [Fintype ι] in
/-- A thread that goes on. -/
theorem step_run (h : s.step kMaxAccept (.run a o) = some s') : ∃ i rest t l,
    s.code a = i :: rest ∧ s.perform kMaxAccept o i = some (t, l) ∧ s' = t.putCode a (l ++ rest) := by
  simp only [Engine.step] at h
  split at h
  · cases h
  · rename_i i rest hc
    obtain ⟨⟨t, l⟩, hp, h⟩ := Option.bind_eq_some_iff.mp h
    cases h
    exact ⟨i, rest, t, l, hc, hp, rfl⟩

omit [DecidableEq ι] in
theorem Turning.performs (hN : N < 2 ^ 32) (hk : kMaxAccept < 2 ^ 64) (ht : s.Turning kMaxAccept)
    (hc : s.code a = i :: rest) (hp : s.perform kMaxAccept o i = some (t, l))
    (hm : o.handles.length ≤ m) (hok : i = .cas s.pendingAccepts → o.ok = true) :
    Pays kMaxAccept n m s t i l := by
  have hb : Below kMaxAccept i := (ht.loops a).2 i (by rw [hc]; rfl)
  cases hi : i.slot with
  | none => exact perform_pays_idle hN ht.good hi hp hok hb hk ht.count
  | some w => exact perform_pays_slot hN ht.good hc hi hp hm ht.count

omit [DecidableEq ι] in
/-- What a thread that goes on leaves to do. -/
theorem Turning.replace (hN : N < 2 ^ 32) (hk : kMaxAccept < 2 ^ 64) (ht : s.Turning kMaxAccept)
    (hc : s.code a = i :: rest) (hp : s.perform kMaxAccept o i = some (t, l)) :
    t.code = s.code ∧ t.pendingAccepts < 2 ^ 64 ∧ Loops kMaxAccept (l ++ rest) := by
  have hrest : rest.countP Instr.exchanges = 0 := by
    have := (ht.loops a).1
    rwa [hc] at this
  by_cases hok : i = .cas s.pendingAccepts → o.ok = true
  · have hpays := ht.performs (n := 0) hN hk hc hp le_rfl hok
    refine ⟨hpays.code, hpays.count, ?_⟩
    rcases hpays.loops with h0 | ⟨c, hlt, rfl⟩
    · exact loops_of_none (by rw [List.countP_append, h0, hrest])
    · refine ⟨hrest, fun j hj => ?_⟩
      cases hj
      exact hlt
  · -- the exchange fails spuriously
    obtain ⟨rfl, hno⟩ := Classical.not_imp.mp hok
    rw [perform, if_neg fun h => hno h.2] at hp
    cases hp
    exact ⟨rfl, ht.count, loops_of_none hrest⟩

theorem Turning.step (hN : N < 2 ^ 32) (hk : kMaxAccept < 2 ^ 64) (ht : s.Turning kMaxAccept)
    (hf : s.Fits) (h : s.step kMaxAccept e = some s') : s'.Turning kMaxAccept := by
  have hg := ht.good.step hN hf h
  -- a thread that starts has no exchange to make
  have start : ∀ {t : Engine ι N} {b : ι} {l : List Instr}, s' = t.putCode b l →
      t.code = s.code → t.pendingAccepts = s.pendingAccepts → l.countP Instr.exchanges = 0 →
      s'.Turning kMaxAccept := by
    rintro t b l rfl hcode hp h0
    refine ⟨hg, hp ▸ ht.count, fun x => ?_⟩
    by_cases hx : x = b
    · subst hx
      rw [putCode_self]
      exact loops_of_none h0
    · rw [putCode_other hx, hcode]
      exact ht.loops x
  cases e with
  | run a o =>
    obtain ⟨i, rest, t, l, hc, hp, rfl⟩ := step_run h
    obtain ⟨hcode, hcount, hloops⟩ := ht.replace hN hk hc hp
    refine ⟨hg, hcount, fun x => ?_⟩
    by_cases hx : x = a
    · subst hx
      rw [putCode_self]
      exact hloops
    · rw [putCode_other hx, hcode]
      exact ht.loops x
  | accepted | disconnected =>
    simp only [Engine.step] at h
    split at h <;> cases h
    exact ⟨hg, ht.count, ht.loops⟩
  | task a =>
    simp only [Engine.step] at h
    split at h
    · split at h <;> cases h
      exact start rfl rfl rfl rfl
    · cases h
  | postAccept a | call a | dequeue a =>
    simp only [Engine.step] at h
    split at h <;> cases h
    exact start rfl rfl rfl rfl

/-- **A step of a thread leaves less work.** -/
theorem Turning.lower (hN : N < 2 ^ 32) (hk : kMaxAccept < 2 ^ 64) (ht : s.Turning kMaxAccept)
    (he : s.Goes e) (h : s.step kMaxAccept e = some s') : s'.work kMaxAccept < s.work kMaxAccept := by
  cases e with
  | run a o =>
    obtain ⟨i, rest, t, l, hc, hp, rfl⟩ := step_run h
    have hok : i = .cas s.pendingAccepts → o.ok = true := by
      rintro rfl
      exact he.2 (by rw [hc]; rfl)
    have hpays := ht.performs (n := Fintype.card ι) hN hk hc hp he.1 hok
    obtain ⟨R, hall, hall'⟩ := (Replaces.next (l := l) hc hpays.code).all
    have hexch := ht.exchanges_le
    have hpaid := hpays.paid
    have hstale := weight_work_le (n := Fintype.card ι) (m := N) (p := s.pendingAccepts)
      t.pendingAccepts R
    rw [hall, num_add] at hexch
    rw [work, work, hall, hall', show (t.putCode a (l ++ rest)).pendingAccepts = t.pendingAccepts from rfl]
    simp only [weight_add, weight_coe, List.map_cons, List.map_nil, List.sum_cons, List.sum_nil]
    by_cases heq : t.pendingAccepts = s.pendingAccepts
    · rw [heq, if_pos rfl] at hpaid
      rw [heq]
      omega
    · rw [if_neg heq] at hpaid
      omega
  | _ => exact he.elim

theorem lowers (hN : N < 2 ^ 32) (hk : kMaxAccept < 2 ^ 64) :
    Lowers (Engine.step (ι := ι) (N := N) kMaxAccept) (fun s e => s.Fits ∧ s.Goes e)
      (Turning kMaxAccept) (work kMaxAccept) where
  keeps _ _ _ ht he h := ht.step hN hk he.1 h
  lower _ _ _ ht he h := ht.lower hN hk he.2 h

/-- **The threads come to rest.**  Their own steps are bounded in number, in whatever order they are
taken; and when none can be taken any more they have nothing left to do. -/
theorem settles (hN : N < 2 ^ 32) (hk : kMaxAccept < 2 ^ 64)
    (r : Runs (Engine.step kMaxAccept) Keeps (start ι N) es s) :
    (∀ fs t, Runs (Engine.step kMaxAccept) (fun s e => s.Fits ∧ s.Goes e) s fs t →
      fs.length ≤ s.work kMaxAccept) ∧
    ((∀ a o, (∀ i ∈ (s.code a).head?, s.Answers o i) → s.step kMaxAccept (.run a o) = none) →
      ∀ a, s.code a = []) := by
  have hl : s.Lively := r.invariant (start_lively hN) fun _ _ _ hl hk hs => hl.step hN hk hs
  have ht : s.Turning kMaxAccept := r.invariant (start_turning hN) fun _ _ _ ht hk' hs =>
    ht.step hN hk hk'.fits hs
  refine ⟨fun fs t r' => ?_, fun hstop a => ?_⟩
  · have := r'.length_le (lowers hN hk) ht
    omega
  · by_contra hne
    obtain ⟨b, j, rest, hc, hgo⟩ := hl.goes kMaxAccept hN hne
    -- an outcome that every instruction can be answered with
    have hsome := hgo ⟨false, false, [], []⟩ (by cases j <;> simp [Answers])
    rw [hstop b _ fun i hi => ?_] at hsome
    · cases hsome
    · rw [hc] at hi
      cases hi
      cases j <;> simp [Answers]

/-- A client is being accepted, and a sender waits. -/
theorem settles_meet : ∃ s : Engine (Fin 2) 1,
    Runs (Engine.step 1) Keeps (start (Fin 2) 1) (meet 0 1) s ∧
      (∀ fs t, Runs (Engine.step 1) (fun s e => s.Fits ∧ s.Goes e) s fs t → fs.length ≤ s.work 1) ∧
      ((∀ a o, (∀ i ∈ (s.code a).head?, s.Answers o i) → s.step 1 (.run a o) = none) →
        ∀ a, s.code a = []) := by
  obtain ⟨s, -, r, -⟩ := run_meet
  exact ⟨s, r, settles (by decide) (by decide) r⟩

end Engine

end IocpServer
