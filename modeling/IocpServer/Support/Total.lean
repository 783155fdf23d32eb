import Mathlib.Algebra.BigOperators.Group.Finset.Piecewise
import Mathlib.Algebra.Order.Group.Multiset
import Mathlib.Algebra.Order.BigOperators.Group.Finset
import Mathlib.Data.Fintype.BigOperators

/-!
# Support — Total

What the members of a finite family hold together, and how that changes with one member.

* `total_update`: the new total and the old share of a member are the old total and its new share;
  `total_gain` and `total_lose` are the cases where one share contains the other.
* `mem_total`, `countP_total`: a total of multisets, member by member.
* `total_replace`: of lists, when one of them goes on.
-/

namespace IocpServer

variable {ι γ μ α : Type} [Fintype ι]

/-- The sum of the shares `f (g a)`. -/
def total [AddCommMonoid μ] (f : γ → μ) (g : ι → γ) : μ := ∑ a, f (g a)

theorem total_update [DecidableEq ι] [AddCommMonoid μ] (f : γ → μ) (g : ι → γ) (a : ι) (c : γ) :
    total f (Function.update g a c) + f (g a) = total f g + f c := by
  have hsplit : ∀ k : ι → γ, total f k = f (k a) + ∑ x ∈ Finset.univ.erase a, f (k x) := by
    intro k
    exact (Finset.add_sum_erase Finset.univ (fun x => f (k x)) (Finset.mem_univ a)).symm
  have hrest : ∑ x ∈ Finset.univ.erase a, f (Function.update g a c x) =
      ∑ x ∈ Finset.univ.erase a, f (g x) := by
    refine Finset.sum_congr rfl fun x hx => ?_
    rw [Function.update_of_ne (Finset.ne_of_mem_erase hx)]
  rw [hsplit, hsplit g, hrest, Function.update_self]
  ac_rfl

/-- A member that keeps its share does not change the total. -/
theorem total_update_same [DecidableEq ι] [AddCommMonoid μ] {f : γ → μ} {g : ι → γ} {a : ι} {c : γ}
    (h : f c = f (g a)) : total f (Function.update g a c) = total f g := by
  refine Finset.sum_congr rfl fun x _ => ?_
  by_cases hx : x = a
  · subst hx
    rw [Function.update_self, h]
  · rw [Function.update_of_ne hx]

theorem total_gain [DecidableEq ι] [AddCancelCommMonoid μ] {f : γ → μ} {g : ι → γ} {a : ι} {c : γ}
    {x : μ} (h : f c = f (g a) + x) : total f (Function.update g a c) = total f g + x := by
  have ht := total_update f g a c
  rw [h, ← add_assoc, add_right_comm] at ht
  exact add_right_cancel ht

theorem total_lose [DecidableEq ι] [AddCancelCommMonoid μ] {f : γ → μ} {g : ι → γ} {a : ι} {c : γ}
    {x : μ} (h : f (g a) = f c + x) : total f g = total f (Function.update g a c) + x := by
  have ht := total_update f g a c
  rw [h, ← add_assoc, add_right_comm] at ht
  exact (add_right_cancel ht).symm

theorem mem_total {f : γ → Multiset α} {g : ι → γ} {x : α} :
    x ∈ total f g ↔ ∃ a, x ∈ f (g a) := by
  rw [total, Multiset.mem_sum]
  simp only [Finset.mem_univ, true_and]

/-- The members of a family of lists, when the start of one list is replaced. -/
theorem total_replace [DecidableEq ι] {code : ι → List α} {a : ι} {fs rest : List α}
    (h : code a = fs ++ rest) (fs' : List α) : ∃ R : Multiset α,
    total (fun l : List α => (l : Multiset α)) code = ↑fs + R ∧
      total (fun l : List α => (l : Multiset α)) (Function.update code a (fs' ++ rest)) = ↑fs' + R := by
  refine ⟨total (fun l : List α => (l : Multiset α)) (Function.update code a rest), ?_, ?_⟩
  · rw [add_comm]
    refine total_lose ?_
    rw [h, ← Multiset.coe_add, add_comm]
  · rw [add_comm, ← Function.update_idem (β := fun _ => List α) rest (fs' ++ rest) code]
    refine total_gain ?_
    rw [Function.update_self, ← Multiset.coe_add, add_comm]

theorem countP_total (p : α → Prop) [DecidablePred p] (f : γ → Multiset α) (g : ι → γ) :
    Multiset.countP p (total f g) = ∑ a, Multiset.countP p (f (g a)) :=
  map_sum (Multiset.countPAddMonoidHom p) (fun a => f (g a)) Finset.univ

theorem card_total_le {f : γ → Multiset α} {n : Nat} (h : ∀ c, (f c).card ≤ n) (g : ι → γ) :
    (total f g).card ≤ Fintype.card ι * n := by
  rw [total, Multiset.card_sum]
  calc ∑ a, (f (g a)).card ≤ ∑ _a : ι, n := Finset.sum_le_sum fun a _ => h (g a)
    _ = Fintype.card ι * n := Finset.sum_const_nat fun _ _ => rfl

end IocpServer
