import Mathlib.Logic.Basic
import Mathlib.Tactic.Common

/-!
# Support — Loop

`while` loops whose body may fail.  A pass through the body either goes round again from a new
state or leaves the loop with a result; a body that fails (an access out of range) has no pass.
`run body n s` makes at most `n` passes.

* `run_mono`: a result reached with some fuel is the result with any more.
* `run_of_measure`: the rule for total correctness.  An invariant under which every pass either
  leaves in the postcondition or goes round with a smaller measure gives a result, in the
  postcondition, with any fuel above the measure.
-/

namespace IocpServer.Loop

/-- One pass through the body of a loop. -/
inductive Pass (σ ρ : Type) where
  | again (s : σ)
  | leave (r : ρ)

variable {σ ρ : Type}

/-- At most `n` passes from `s`; `none` when the body fails or the fuel is used up. -/
def run (body : σ → Option (Pass σ ρ)) : Nat → σ → Option ρ
  | 0, _ => none
  | n + 1, s => match body s with
    | none => none
    | some (.leave r) => some r
    | some (.again s') => run body n s'

theorem run_leave {body : σ → Option (Pass σ ρ)} {s : σ} {r : ρ} (h : body s = some (.leave r))
    (n : Nat) : run body (n + 1) s = some r := by
  simp only [run, h]

theorem run_again {body : σ → Option (Pass σ ρ)} {s s' : σ} (h : body s = some (.again s'))
    (n : Nat) : run body (n + 1) s = run body n s' := by
  simp only [run, h]

/-- The first pass of a loop that has a result. -/
theorem run_cases {body : σ → Option (Pass σ ρ)} {n : Nat} {s : σ} {r : ρ}
    (h : run body (n + 1) s = some r) :
    body s = some (.leave r) ∨ ∃ s', body s = some (.again s') ∧ run body n s' = some r := by
  rw [run] at h
  split at h
  · cases h
  · rename_i r' hb
    exact .inl (hb.trans (congrArg (fun r => some (Pass.leave r)) (Option.some.inj h)))
  · rename_i s' hb
    exact .inr ⟨s', hb, h⟩

/-- More fuel does not change a result. -/
theorem run_mono {body : σ → Option (Pass σ ρ)} {r : ρ} :
    ∀ {n m : Nat} {s : σ}, run body n s = some r → n ≤ m → run body m s = some r
  | 0, _, _, h, _ => by simp [run] at h
  | n + 1, 0, _, _, hm => by omega
  | n + 1, m + 1, s, h, hm => by
      cases hb : body s with
      | none => simp [run, hb] at h
      | some p =>
          cases p with
          | leave r' => simpa only [run, hb] using h
          | again s' =>
              rw [run_again hb] at h ⊢
              exact run_mono h (by omega)

/-- **Total correctness.**  Every pass under the invariant leaves in the postcondition, or goes
round under the invariant with a smaller measure. -/
theorem run_of_measure {body : σ → Option (Pass σ ρ)} {I : σ → Prop} {Q : ρ → Prop} {μ : σ → Nat}
    (hb : ∀ s, I s → (∃ r, body s = some (.leave r) ∧ Q r) ∨
      ∃ s', body s = some (.again s') ∧ I s' ∧ μ s' < μ s) :
    ∀ {n : Nat} {s : σ}, I s → μ s < n → ∃ r, run body n s = some r ∧ Q r
  | 0, _, _, hn => by omega
  | n + 1, s, hs, hn => by
      rcases hb s hs with ⟨r, he, hr⟩ | ⟨s', he, hs', hμ⟩
      · exact ⟨r, run_leave he n, hr⟩
      · obtain ⟨r, hrun, hr⟩ := run_of_measure hb (n := n) hs' (by omega)
        exact ⟨r, (run_again he n).trans hrun, hr⟩

end IocpServer.Loop
