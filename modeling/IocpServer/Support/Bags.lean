import Mathlib.Algebra.Order.Group.Multiset
import Mathlib.Algebra.BigOperators.Group.Multiset.Basic
import Mathlib.Algebra.Order.BigOperators.Group.Multiset
import Mathlib.Algebra.Order.Ring.Nat

/-!
# Support — Bags

Counting in a multiset: `num q C` members satisfy `q`, and `weight f C` is the sum of their `f`.
Both add up over `C + D`, and over the members of a list.
-/

namespace IocpServer

variable {α : Type}

theorem mem_head (i : α) (l : List α) (C : Multiset α) : i ∈ ↑(i :: l) + C :=
  Multiset.mem_add.mpr (.inl (Multiset.mem_coe.mpr List.mem_cons_self))

/-- How many members satisfy `q`. -/
def num (q : α → Bool) (C : Multiset α) : Nat := C.countP (q · = true)

@[simp] theorem num_add (q : α → Bool) (C D : Multiset α) : num q (C + D) = num q C + num q D :=
  Multiset.countP_add _ C D

@[simp] theorem num_zero (q : α → Bool) : num q 0 = 0 := Multiset.countP_zero _

@[simp] theorem num_cons (q : α → Bool) (i : α) (C : Multiset α) :
    num q (i ::ₘ C) = num q C + if q i = true then 1 else 0 :=
  Multiset.countP_cons _ i C

@[simp] theorem num_coe (q : α → Bool) (l : List α) : num q l = l.countP q := by
  rw [num, Multiset.coe_countP]
  simp

theorem num_pos {q : α → Bool} {C : Multiset α} {i : α} (hi : i ∈ C) (hq : q i = true) :
    0 < num q C :=
  Multiset.countP_pos.mpr ⟨i, hi, hq⟩

theorem num_eq_zero {q : α → Bool} {C : Multiset α} : num q C = 0 ↔ ∀ i ∈ C, q i = false := by
  rw [num, Multiset.countP_eq_zero]
  simp

theorem num_le {q q' : α → Bool} (h : ∀ i, q i = true → q' i = true) (C : Multiset α) :
    num q C ≤ num q' C := by
  induction C using Multiset.induction_on with
  | empty => exact Nat.le_refl _
  | cons i C ih =>
      rw [num_cons, num_cons]
      by_cases hi : q i = true
      · rw [if_pos hi, if_pos (h i hi)]
        omega
      · rw [if_neg hi]
        omega

theorem num_congr {q q' : α → Bool} {C : Multiset α} (h : ∀ i ∈ C, q i = q' i) :
    num q C = num q' C :=
  Multiset.countP_congr rfl fun i hi => by rw [h i hi]

/-- The sum of the members' `f`. -/
def weight (f : α → Nat) (C : Multiset α) : Nat := (C.map f).sum

@[simp] theorem weight_add (f : α → Nat) (C D : Multiset α) :
    weight f (C + D) = weight f C + weight f D := by
  rw [weight, Multiset.map_add, Multiset.sum_add]
  rfl

@[simp] theorem weight_zero (f : α → Nat) : weight f 0 = 0 := rfl

@[simp] theorem weight_cons (f : α → Nat) (i : α) (C : Multiset α) :
    weight f (i ::ₘ C) = f i + weight f C := by
  rw [weight, Multiset.map_cons, Multiset.sum_cons]
  rfl

@[simp] theorem weight_coe (f : α → Nat) (l : List α) : weight f l = (l.map f).sum := by
  rw [weight, Multiset.map_coe, Multiset.sum_coe]

theorem weight_le {f : α → Nat} {C D : Multiset α} (h : C ≤ D) : weight f C ≤ weight f D := by
  obtain ⟨E, rfl⟩ := Multiset.le_iff_exists_add.mp h
  rw [weight_add]
  exact Nat.le_add_right _ _

theorem le_weight {f : α → Nat} {C : Multiset α} {i : α} (hi : i ∈ C) : f i ≤ weight f C :=
  Multiset.single_le_sum (fun x _ => Nat.zero_le x) _ (Multiset.mem_map_of_mem f hi)

end IocpServer
