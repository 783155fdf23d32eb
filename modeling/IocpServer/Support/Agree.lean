import Mathlib.Data.Option.Defs
import Mathlib.Tactic.Common

/-!
# Support — Agree

Two runs of one partial computation.  `Agree R x y` says that the runs `x` and `y` both fail or
both succeed with results in the relation `R`.

* `Agree.bind`: the rule for one computation after another.
* `Agree.map_eq`: what the relation says of an observation of the results.
-/

namespace IocpServer

variable {α β γ δ ε : Type}

/-- Both runs fail, or both succeed with results in the relation `R`. -/
abbrev Agree (R : α → β → Prop) (x : Option α) (y : Option β) : Prop := Option.Rel R x y

namespace Agree

variable {R : α → β → Prop} {S : γ → δ → Prop} {x : Option α} {y : Option β}

/-- **One computation after another.** -/
theorem bind {f : α → Option γ} {g : β → Option δ} (h : Agree R x y)
    (hfg : ∀ a b, R a b → Agree S (f a) (g b)) : Agree S (x.bind f) (y.bind g) := by
  cases h with
  | none => exact .none
  | some hab => exact hfg _ _ hab

/-- The same computation in both runs. -/
theorem same {R : α → α → Prop} (h : ∀ a, R a a) (x : Option α) : Agree R x x := by
  cases x with
  | none => exact .none
  | some a => exact .some (h a)

theorem mono {R' : α → β → Prop} (h : Agree R x y) (hR : ∀ a b, R a b → R' a b) : Agree R' x y := by
  cases h with
  | none => exact .none
  | some hab => exact .some (hR _ _ hab)

/-- An observation that the relation leaves equal. -/
theorem map_eq {f : α → ε} {g : β → ε} (h : Agree R x y) (hR : ∀ a b, R a b → f a = g b) :
    x.map f = y.map g := by
  cases h with
  | none => rfl
  | some hab => exact congrArg some (hR _ _ hab)

end Agree

end IocpServer
