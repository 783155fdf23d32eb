import IocpServer.Server.Tasks

/-!
# Server — Lookup

`GetSession` returns the entry of the slot, whatever the generation of the handle it is given; and
`IsValid` in `SendToSession` asks the pointer that was returned about its own handle.

* `Base.entered_iff`: the entry of a slot is there from `CreateSession` to `DisconnectSession`.
* `getSession_iff`: the pointer returned has the handle asked for, or there is none, if the slot does
  not hold a session of another generation, and only then; so does `SendToSession` queue its bytes.
-/

namespace IocpServer

/-- The two halves of a handle. -/
theorem packHandle_parts {h : Nat} (hh : h < 2 ^ 64) :
    packHandle (slotGeneration h) (slotIndex h) = h := by
  have hg : slotGeneration h < 2 ^ 32 := u32_lt _
  have hi : slotIndex h < 2 ^ 32 := u32_lt _
  rw [packHandle_eq hg hi, slotGeneration, slotIndex, kIndexShift, Nat.shiftRight_eq_div_pow, u32, u32]
  omega

/-- Between `CreateSession` and `DisconnectSession`. -/
theorem Seat.Base.entered_iff {w : Nat} {v : Seat} {C : Multiset Instr} (hb : v.Base w C) :
    v.entry ≠ none ↔ v.cell.state ≠ 0 ∧ num Instr.creates C = 0 ∧ v.life.resets = 0 := by
  have hle := refs_le v.entry
  rw [ne_eq, ← refs_eq_zero]
  constructor
  · intro hne
    have hf := hb.tally.free_iff
    have hc := hb.creating
    have henters := Instr.enters_le C
    simp only [held] at hf hc
    have hst : v.cell.state ≠ 0 := by omega
    have hcr : num Instr.creates C = 0 := by omega
    have := hb.entered hst hcr
    exact ⟨hst, hcr, by omega⟩
  · rintro ⟨hst, hcr, h0⟩
    have := hb.entered hst hcr
    omega

namespace Engine

variable {ι : Type} {N kMaxAccept : Nat} {s : Engine ι N} {es : List (Event ι)} {h : Nat} [Fintype ι]

/-- The slot of `h` holds no session, or the one with the generation of `h`: as long as a slot is
idle or `CreateSession` is not done with it, and from `DisconnectSession` on, it holds none. -/
def Current (s : Engine ι N) (h : Nat) : Prop :=
  (s.view (slotIndex h)).cell.state ≠ SessionState.kIdle.toNat →
    num Instr.creates (s.codeAt (slotIndex h)) = 0 → (s.life (slotIndex h)).resets = 0 →
      s.set.isValid h = true

/-- An entry is of the session asked for if that is valid. -/
theorem Good.entry_iff (hN : N < 2 ^ 32) (hg : s.Good) (hw : slotIndex h < N) (hh : h < 2 ^ 64)
    {g : Nat} (he : s.sessionPtrs (slotIndex h) = some g) : g = h ↔ s.set.isValid h = true := by
  have hgw : g = (s.view (slotIndex h)).handle (slotIndex h) := (hg.base _ hw).entry_eq g he
  constructor
  · rintro rfl
    exact isValid_handle hN hg.rep hw hgw
  · intro hv
    rw [SparseSet.isValid, Bool.and_eq_true, beq_iff_eq] at hv
    rw [hgw, Seat.handle, show (s.view (slotIndex h)).cell.generation = slotGeneration h from hv.2,
      packHandle_parts hh]

theorem Good.current_iff (hN : N < 2 ^ 32) (hg : s.Good) (hw : slotIndex h < N) (hh : h < 2 ^ 64) :
    (∀ g, s.sessionPtrs (slotIndex h) = some g → g = h) ↔ s.Current h := by
  have hent := (hg.base _ hw).entered_iff
  constructor
  · intro hall hst hcr h0
    obtain ⟨g, he⟩ := Option.ne_none_iff_exists'.mp (hent.mpr ⟨hst, hcr, h0⟩)
    exact (hg.entry_iff hN hw hh he).mp (hall g he)
  · intro hcur g he
    have hne : (s.view (slotIndex h)).entry ≠ none := fun e => by
      rw [show (s.view (slotIndex h)).entry = some g from he] at e
      cases e
    obtain ⟨hst, hcr, h0⟩ := hent.mp hne
    exact (hg.entry_iff hN hw hh he).mpr (hcur hst hcr h0)

variable [DecidableEq ι]

/-- `GetSession` of a caller, and what it goes on with. -/
theorem Good.lookup (hN : N < 2 ^ 32) (hg : s.Good) {a : ι} {o : Outcome} {call : Call}
    {rest : List Instr} {s' : Engine ι N} (hc : s.code a = .lookup h call :: rest)
    (hs : s.step kMaxAccept (.run a o) = some s') :
    (∃ g, s.sessionPtrs (slotIndex h) = some g ∧
      s'.code a = call.body (slotIndex h) ++ .drop g :: rest) ∨
    s.sessionPtrs (slotIndex h) = none ∧ s'.code a = rest := by
  simp only [Engine.step, hc] at hs
  obtain ⟨⟨t, l⟩, hp, hs⟩ := Option.bind_eq_some_iff.mp hs
  cases hs
  rw [putCode_self]
  obtain ⟨-, -, -, -, -, ⟨hst, -⟩ | ⟨he, -, rfl⟩⟩ :=
    perform_lookup hN hg.rep (fun w hw => (hg.base w hw).entry_eq) hp
  · generalize t.view (slotIndex h) = v' at hst
    cases hst with
    | lookup he =>
      refine .inl ⟨_, he, ?_⟩
      rw [List.append_assoc, List.singleton_append]
  · exact .inr ⟨he, List.nil_append rest⟩

/-- **`GetSession` returns the session asked for, and `SendToSession` sends to it, if the slot does
not hold another one, and only then.** -/
theorem getSession_iff (hN : N < 2 ^ 32)
    (r : Runs (step kMaxAccept) (fun s _ => s.Fits) (start ι N) es s) (hh : h < 2 ^ 64)
    (hw : slotIndex h < N) :
    (∃ t p, s.getSession h = some (t, p) ∧ ((∀ g, p = some g → g = h) ↔ s.Current h)) ∧
    ∀ a o rest s', s.code a = .lookup h .send :: rest → s.Fits →
      s.step kMaxAccept (.run a o) = some s' →
      ∀ es' t, Runs (step kMaxAccept) (fun s _ => s.Fits) s' es' t → t.code a = s'.code a →
        ((∀ w g, t.code a = .sendPacket w .plain :: .drop g :: rest →
          (t.view w).handle w = h) ↔ s.Current h) := by
  have hg := run_good hN (fun _ _ h => h) r
  have hidx : ∀ g, s.sessionPtrs (slotIndex h) = some g → slotIndex g = slotIndex h :=
    fun g he => slotIndex_of hN hg.rep hw ((hg.base _ hw).entry_eq g he)
  refine ⟨⟨_, _, getSession_eq rfl hw hidx, hg.current_iff hN hw hh⟩, ?_⟩
  intro a o rest s' hc hf hs es' t r' hcode
  have hgt : t.Good := r'.invariant (hg.step hN hf hs) fun _ _ _ hg hf hs => hg.step hN hf hs
  rw [← hg.current_iff hN hw hh, hcode]
  rcases hg.lookup hN hc hs with ⟨g, he, hl⟩ | ⟨he, hl⟩
  · -- the pointer is held, so the session stays in its slot
    have hhandle : (t.view (slotIndex h)).handle (slotIndex h) = g := by
      have hmem : .drop g ∈ t.codeAt (slotIndex h) :=
        mem_codeAt.mpr ⟨⟨a, by rw [hcode, hl]; simp⟩, congrArg some (hidx g he)⟩
      exact ((hgt.base _ hw).names _ hmem).symm
    rw [hl, he]
    constructor
    · rintro hsend k ⟨⟩
      rw [← hhandle]
      exact hsend _ _ rfl
    · rintro hall w k ⟨⟩
      rw [hhandle, hall g rfl]
  · rw [hl, he]
    constructor
    · rintro - g ⟨⟩
    rintro - w g hlist
    have := congrArg List.length hlist
    simp only [List.length_cons] at this
    omega

/-- A handle is looked up while its session is connected. -/
theorem getSession_iff_connected : ∃ s : Engine (Fin 2) 1,
    Runs (step 1) (fun s _ => s.Fits) (start (Fin 2) 1) (arrive 0 ++ [.call 1 0 .send]) s ∧
      s.Current 0 ∧ ∃ t p, s.getSession 0 = some (t, p) ∧ ∀ g, p = some g → g = 0 := by
  have hexec : (execIf (fun s _ => decide s.Fits) (step 1) (start (Fin 2) 1)
      (arrive 0 ++ [.call 1 0 .send])).map (fun s => s.set.isValid 0) = some true := by
    decide +kernel
  obtain ⟨s, hs, hv⟩ := Option.map_eq_some_iff.mp hexec
  have r : Runs (step 1) (fun s _ => s.Fits) (start (Fin 2) 1) (arrive 0 ++ [.call 1 0 .send]) s :=
    Runs.of_execIf (I := fun _ => True) (fun _ _ _ h => of_decide_eq_true h)
      (fun _ _ _ _ _ _ => trivial) trivial hs
  have hcur : s.Current 0 := fun _ _ _ => hv
  obtain ⟨t, p, hp, hiff⟩ := (getSession_iff (by decide) r (by decide) (by decide : slotIndex 0 < 1)).1
  exact ⟨s, r, hcur, t, p, hp, hiff.mpr hcur⟩

/-- **A handle that has been released finds the session of the next client**, and `SendToSession`
sends to it. -/
theorem getSession_next : ∃ s : Engine (Fin 2) 1,
    Runs (step 1) (fun s _ => s.Fits) (start (Fin 2) 1)
        (arrive 0 ++ leave 0 ++ reuse 0 ++ .accepted 0 :: .dequeue 0 0 .recv true false :: runs 0 20 ++
          .call 1 0 .send :: runs 1 1) s ∧
      s.set.isValid 0 = false ∧ (s.view 0).cell.state = SessionState.kConnected.toNat ∧
      s.code 1 = [.sendPacket 0 .plain, .drop (2 ^ 32)] ∧
      (s.getSession 0).map Prod.snd = some (some (2 ^ 32)) := by
  have hexec : (execIf (fun s _ => decide s.Fits) (step 1) (start (Fin 2) 1)
      (arrive 0 ++ leave 0 ++ reuse 0 ++ .accepted 0 :: .dequeue 0 0 .recv true false :: runs 0 20 ++
        .call 1 0 .send :: runs 1 1)).map
        (fun s => decide (s.set.isValid 0 = false ∧ (s.view 0).cell.state = 2 ∧
          s.code 1 = [.sendPacket 0 .plain, .drop (2 ^ 32)] ∧
          (s.getSession 0).map Prod.snd = some (some (2 ^ 32)))) = some true := by
    decide +kernel
  obtain ⟨s, hs, heq⟩ := Option.map_eq_some_iff.mp hexec
  refine ⟨s, ?_, of_decide_eq_true heq⟩
  exact Runs.of_execIf (I := fun _ => True) (fun _ _ _ h => of_decide_eq_true h)
    (fun _ _ _ _ _ _ => trivial) trivial hs

end Engine

end IocpServer
