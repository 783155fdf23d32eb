import Mathlib.Data.List.Induction
import Mathlib.Tactic.Common

/-!
# Support — Runs

Labelled transition systems given by a partial step function `step : σ → ε → Option σ`.
`Runs step ok s es t` is a run from `s` to `t` with the events `es`, each of which satisfies `ok`
in the state it is taken from; `ok := Always` asks for nothing.

* `Runs.invariant`: what holds at the start and is preserved by every step holds at the end.
* `Runs.simulates`: a run seen as a run of another system.
* `Runs.of_exec`, `Runs.of_execIf`: a computed trace is a run.
-/

namespace IocpServer

variable {σ ε : Type}

/-- No condition on the events of a run. -/
def Always (_ : σ) (_ : ε) : Prop := True

/-- A run from `s` with the events `es`, each taken where `ok` holds. -/
inductive Runs (step : σ → ε → Option σ) (ok : σ → ε → Prop) (s : σ) : List ε → σ → Prop where
  | refl : Runs step ok s [] s
  | more {t u : σ} {es : List ε} {e : ε} (r : Runs step ok s es t) (hok : ok t e)
      (h : step t e = some u) : Runs step ok s (es ++ [e]) u

namespace Runs

variable {step : σ → ε → Option σ} {ok ok' : σ → ε → Prop} {s t : σ} {es : List ε}

/-- **Invariants of runs.** -/
theorem invariant {I : σ → Prop} (r : Runs step ok s es t) (h₀ : I s)
    (hstep : ∀ a e b, I a → ok a e → step a e = some b → I b) : I t := by
  induction r with
  | refl => exact h₀
  | more _ hok h ih => exact hstep _ _ _ ih hok h

/-- An invariant that also speaks of the events so far. -/
theorem invariant_events {I : List ε → σ → Prop} (r : Runs step ok s es t) (h₀ : I [] s)
    (hstep : ∀ es a e b, I es a → ok a e → step a e = some b → I (es ++ [e]) b) : I es t := by
  induction r with
  | refl => exact h₀
  | more _ hok h ih => exact hstep _ _ _ _ ih hok h

theorem mono (h : ∀ a e, ok a e → ok' a e) (r : Runs step ok s es t) : Runs step ok' s es t := by
  induction r with
  | refl => exact .refl
  | more _ hok hs ih => exact .more ih (h _ _ hok) hs

end Runs

/-- **Simulation.**  If under an invariant every step is a step of another system, seen through
`view`, or is not seen there, then every run is a run of that system. -/
theorem Runs.simulates {σ' ε' : Type} {step : σ → ε → Option σ} {ok : σ → ε → Prop}
    {step' : σ' → ε' → Option σ'} {ok' : σ' → ε' → Prop} {I : σ → Prop} {s t : σ} {es : List ε}
    (view : σ → σ') (r : Runs step ok s es t) (h₀ : I s)
    (hstep : ∀ a e b, I a → ok a e → step a e = some b → I b ∧ (view b = view a ∨
      ∃ e', ok' (view a) e' ∧ step' (view a) e' = some (view b))) :
    I t ∧ ∃ es', Runs step' ok' (view s) es' (view t) := by
  induction r with
  | refl => exact ⟨h₀, [], .refl⟩
  | more _ hok h ih =>
    obtain ⟨hI, es', r'⟩ := ih
    obtain ⟨hI', hsame | ⟨e', hok', h'⟩⟩ := hstep _ _ _ hI hok h
    · exact ⟨hI', es', hsame ▸ r'⟩
    · exact ⟨hI', es' ++ [e'], .more r' hok' h'⟩

/-- The events `es` taken one after the other. -/
def exec (step : σ → ε → Option σ) : σ → List ε → Option σ
  | s, [] => some s
  | s, e :: es => (step s e).bind fun t => exec step t es

@[simp] theorem exec_nil (step : σ → ε → Option σ) (s : σ) : exec step s [] = some s := rfl

@[simp] theorem exec_cons (step : σ → ε → Option σ) (s : σ) (e : ε) (es : List ε) :
    exec step s (e :: es) = (step s e).bind fun t => exec step t es := rfl

theorem exec_append (step : σ → ε → Option σ) :
    ∀ (s : σ) (es fs : List ε), exec step s (es ++ fs) = (exec step s es).bind (exec step · fs)
  | _, [], _ => rfl
  | s, e :: es, fs => by
      simp only [List.cons_append, exec_cons]
      cases step s e with
      | none => rfl
      | some t => exact exec_append step t es fs

/-- A run is a computed trace. -/
theorem Runs.exec_eq {step : σ → ε → Option σ} {ok : σ → ε → Prop} {s t : σ} {es : List ε}
    (r : Runs step ok s es t) : exec step s es = some t := by
  induction r with
  | refl => rfl
  | more _ _ h ih => simp only [exec_append, ih, Option.bind_some, exec_cons, h, exec_nil]

/-- A computed trace is a run, under a condition its events meet in any state. -/
theorem Runs.of_exec {step : σ → ε → Option σ} {ok : σ → ε → Prop} {s t : σ} {es : List ε}
    (h : exec step s es = some t) (hok : ∀ e ∈ es, ∀ a, ok a e) : Runs step ok s es t := by
  induction es using List.reverseRecOn generalizing t with
  | nil => cases h; exact .refl
  | append_singleton es e ih =>
      rw [exec_append] at h
      obtain ⟨u, hu, h⟩ := Option.bind_eq_some_iff.mp h
      simp only [exec_cons, exec_nil] at h
      obtain ⟨v, hv, h⟩ := Option.bind_eq_some_iff.mp h
      cases h
      exact .more (ih hu fun f hf => hok f (List.mem_append_left _ hf))
        (hok e (List.mem_append_right _ List.mem_cons_self) u) hv

/-- `exec`, stopping at an event that `ok` does not allow. -/
def execIf (ok : σ → ε → Bool) (step : σ → ε → Option σ) : σ → List ε → Option σ
  | s, [] => some s
  | s, e :: es => if ok s e then (step s e).bind fun t => execIf ok step t es else none

/-- A run may start with a run. -/
theorem Runs.append {step : σ → ε → Option σ} {ok : σ → ε → Prop} {s t u : σ} {es fs : List ε}
    (r : Runs step ok s es t) (r' : Runs step ok t fs u) : Runs step ok s (es ++ fs) u := by
  induction r' with
  | refl => rwa [List.append_nil]
  | more _ hok h ih =>
      rw [← List.append_assoc]
      exact .more ih hok h

theorem Runs.one {step : σ → ε → Option σ} {ok : σ → ε → Prop} {s t : σ} {e : ε} (hok : ok s e)
    (h : step s e = some t) : Runs step ok s [e] t :=
  Runs.more .refl hok h

/-- The first step of a run, and the rest of it. -/
theorem Runs.uncons {step : σ → ε → Option σ} {ok : σ → ε → Prop} {s t : σ} {l : List ε}
    (r : Runs step ok s l t) {e : ε} {es : List ε} (hl : l = e :: es) :
    ∃ u, ok s e ∧ step s e = some u ∧ Runs step ok u es t := by
  induction r generalizing es with
  | refl => cases hl
  | @more t' u' es' e' r hok h ih =>
      cases es' with
      | nil =>
          cases hl
          cases r.exec_eq
          exact ⟨u', hok, h, .refl⟩
      | cons f fs =>
          cases hl
          obtain ⟨u, hu, hs, r'⟩ := ih rfl
          exact ⟨u, hu, hs, .more r' hok h⟩

/-- A computed trace is a run, when the events allowed are those under a condition that the states
of the trace keep. -/
theorem Runs.of_execIf {step : σ → ε → Option σ} {ok : σ → ε → Prop} {allow : σ → ε → Bool}
    {I : σ → Prop} (hallow : ∀ a e, I a → allow a e = true → ok a e)
    (hstep : ∀ a e b, I a → allow a e = true → step a e = some b → I b) :
    ∀ {s t : σ} {es : List ε}, I s → execIf allow step s es = some t → Runs step ok s es t
  | s, t, [], _, h => by
      cases h
      exact .refl
  | s, t, e :: es, hs, h => by
      rw [execIf] at h
      split at h
      · rename_i hok
        obtain ⟨u, hu, h⟩ := Option.bind_eq_some_iff.mp h
        exact (Runs.one (hallow s e hs hok) hu).append
          (Runs.of_execIf hallow hstep (hstep s e u hs hok hu) h)
      · cases h

end IocpServer
