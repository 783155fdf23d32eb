import IocpServer.Support.Runs

/-!
# Support — Halting

Runs whose events lower a measure.

* `Runs.length_le`: such a run is no longer than the measure where it starts.
* `exists_stopped`: it can be continued to a state in which no event is left.
-/

namespace IocpServer

variable {σ ε : Type} {step : σ → ε → Option σ} {ok : σ → ε → Prop} {s t : σ} {es : List ε}

/-- No event that `ok` allows can be taken. -/
def Stopped (step : σ → ε → Option σ) (ok : σ → ε → Prop) (s : σ) : Prop :=
  ∀ e, ok s e → step s e = none

/-- Every event lowers `m`, where `I` holds. -/
structure Lowers (step : σ → ε → Option σ) (ok : σ → ε → Prop) (I : σ → Prop) (m : σ → Nat) :
    Prop where
  keeps : ∀ a e b, I a → ok a e → step a e = some b → I b
  lower : ∀ a e b, I a → ok a e → step a e = some b → m b < m a

variable {I : σ → Prop} {m : σ → Nat}

/-- Each event of a run is paid for. -/
theorem Runs.length_le (h : Lowers step ok I m) (r : Runs step ok s es t) (hs : I s) :
    es.length + m t ≤ m s := by
  induction r with
  | refl => simp
  | @more t u es e r hok hstep ih =>
      have ht : I t := r.invariant hs h.keeps
      have := h.lower t e u ht hok hstep
      rw [List.length_append, List.length_singleton]
      omega

/-- Every run can be continued to its end. -/
theorem exists_stopped (h : Lowers step ok I m) (hs : I s) :
    ∃ es t, Runs step ok s es t ∧ Stopped step ok t := by
  induction hn : m s using Nat.strongRecOn generalizing s with
  | ind n ih =>
      by_cases hstop : Stopped step ok s
      · exact ⟨[], s, .refl, hstop⟩
      · obtain ⟨e, he⟩ := not_forall.mp hstop
        obtain ⟨hok, hsome⟩ := Classical.not_imp.mp he
        obtain ⟨u, hu⟩ := Option.ne_none_iff_exists'.mp hsome
        have hlt := h.lower s e u hs hok hu
        obtain ⟨es, t, r, ht⟩ := ih (m u) (hn ▸ hlt) (h.keeps s e u hs hok hu) rfl
        exact ⟨e :: es, t, (Runs.one hok hu).append r, ht⟩

end IocpServer
