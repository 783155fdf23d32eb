import IocpServer.Support.Runs
import Mathlib.Logic.Function.Basic

/-!
# Support — Atomic

Objects that threads call.  `Moves effect` are the histories of an object each of whose operations
takes place at one moment between its call and its return, with an answer and an effect on the
contents that are in `effect`.

* `Moves.invariant`: what the effects keep of the contents.
* `linearizable`: the rule of simulation.  Where every step of a system is one of an atomic object or
  several, its histories of calls and returns are histories of that object.
-/

namespace IocpServer.Atomic

/-- What is seen of a call. -/
inductive Seen (ι ω α : Type) where
  | call (t : ι) (op : ω)
  | ret (t : ι) (answer : α)

/-- The contents, and the calls that have not returned, each with its answer once it has one. -/
structure Object (ι τ ω α : Type) where
  contents : τ
  calls : ι → Option (ω × Option α)

variable {ι τ ω α : Type}

/-- No call. -/
def idle (contents : τ) : Object ι τ ω α := ⟨contents, fun _ => none⟩

variable [DecidableEq ι] (effect : τ → ω → α → τ → Prop)

/-- The moves of an object, with what is seen of them. -/
inductive Moves (w : Object ι τ ω α) : List (Seen ι ω α) → Object ι τ ω α → Prop where
  | refl : Moves w [] w
  | call {seen : List (Seen ι ω α)} {v : Object ι τ ω α} {t : ι} (op : ω) (h : Moves w seen v)
      (ht : v.calls t = none) :
      Moves w (seen ++ [.call t op]) { v with calls := Function.update v.calls t (some (op, none)) }
  | act {seen : List (Seen ι ω α)} {v : Object ι τ ω α} {t : ι} {op : ω} {answer : α} {contents : τ}
      (h : Moves w seen v) (ht : v.calls t = some (op, none))
      (he : effect v.contents op answer contents) :
      Moves w seen ⟨contents, Function.update v.calls t (some (op, some answer))⟩
  | ret {seen : List (Seen ι ω α)} {v : Object ι τ ω α} {t : ι} {op : ω} {answer : α}
      (h : Moves w seen v) (ht : v.calls t = some (op, some answer)) :
      Moves w (seen ++ [.ret t answer]) { v with calls := Function.update v.calls t none }

variable {effect} {u v w : Object ι τ ω α}
  {seen seen' : List (Seen ι ω α)}

namespace Moves

theorem trans (h : Moves effect u seen v) (h' : Moves effect v seen' w) :
    Moves effect u (seen ++ seen') w := by
  induction h' with
  | refl => rwa [List.append_nil]
  | call op _ ht ih =>
      rw [← List.append_assoc]
      exact .call op ih ht
  | act _ ht he ih => exact .act ih ht he
  | ret _ ht ih =>
      rw [← List.append_assoc]
      exact .ret ih ht

/-- **Invariants of histories.** -/
theorem invariant {I : List (Seen ι ω α) → Object ι τ ω α → Prop} (h : Moves effect u seen v)
    (h₀ : I [] u)
    (hcall : ∀ {seen v t} op, I seen v → v.calls t = none →
      I (seen ++ [.call t op]) { v with calls := Function.update v.calls t (some (op, none)) })
    (hact : ∀ {seen v t op answer contents}, I seen v → v.calls t = some (op, none) →
      effect v.contents op answer contents →
        I seen ⟨contents, Function.update v.calls t (some (op, some answer))⟩)
    (hret : ∀ {seen v t op answer}, I seen v → v.calls t = some (op, some answer) →
      I (seen ++ [.ret t answer]) { v with calls := Function.update v.calls t none }) :
    I seen v := by
  induction h with
  | refl => exact h₀
  | call op _ ht ih => exact hcall op ih ht
  | act _ ht he ih => exact hact ih ht he
  | ret _ ht ih => exact hret ih ht

end Moves

/-- **Simulation.**  `R` relates the states of a system to objects, and every step of the system from
a state that is related to an object takes moves of it that show the same. -/
theorem linearizable {σ ε : Type} {step : σ → ε → Option σ} {ok : σ → ε → Prop}
    {shown : ε → List (Seen ι ω α)} {R : List ε → σ → Object ι τ ω α → Prop} {s t : σ} {es : List ε}
    {w : Object ι τ ω α} (r : Runs step ok s es t) (h₀ : R [] s w)
    (hstep : ∀ {es a e b v}, R es a v → ok a e → step a e = some b →
      ∃ v', Moves effect v (shown e) v' ∧ R (es ++ [e]) b v') :
    ∃ v, Moves effect w (es.flatMap shown) v ∧ R es t v := by
  induction r with
  | refl => exact ⟨w, .refl, h₀⟩
  | more _ hok h ih =>
      obtain ⟨v, hmoves, hv⟩ := ih
      obtain ⟨v', hmoves', hv'⟩ := hstep hv hok h
      refine ⟨v', ?_, hv'⟩
      rw [List.flatMap_append, List.flatMap_cons, List.flatMap_nil, List.append_nil]
      exact hmoves.trans hmoves'

end IocpServer.Atomic
