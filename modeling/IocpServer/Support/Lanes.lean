import Mathlib.Data.List.Basic
import Mathlib.Tactic.Common

/-!
# Support — Lanes

A queue shared by many producers.  Its entries carry the key of their producer, and `lane k` is the
entries of `k` in the order of the queue: what is appended or taken off the front for one key leaves
the lanes of the others as they are.
-/

namespace IocpServer

variable {κ α : Type} [DecidableEq κ]

/-- The entries of one key. -/
def lane (k : κ) (xs : List (κ × α)) : List α :=
  xs.filterMap fun x => if x.1 = k then some x.2 else none

@[simp] theorem lane_nil (k : κ) : lane k ([] : List (κ × α)) = [] := rfl

@[simp] theorem lane_append (k : κ) (xs ys : List (κ × α)) :
    lane k (xs ++ ys) = lane k xs ++ lane k ys :=
  List.filterMap_append

@[simp] theorem lane_cons_self (k : κ) (x : α) (xs : List (κ × α)) :
    lane k ((k, x) :: xs) = x :: lane k xs := by
  simp only [lane, List.filterMap_cons, if_true]

@[simp] theorem lane_cons_other {k j : κ} (h : j ≠ k) (x : α) (xs : List (κ × α)) :
    lane k ((j, x) :: xs) = lane k xs := by
  simp only [lane, List.filterMap_cons, if_neg h]

/-- An entry of a lane is an entry of the queue. -/
theorem mem_lane {k : κ} {x : α} {xs : List (κ × α)} : x ∈ lane k xs ↔ (k, x) ∈ xs := by
  simp only [lane, List.mem_filterMap]
  constructor
  · rintro ⟨⟨j, y⟩, hmem, h⟩
    by_cases hj : j = k
    · rw [if_pos hj, Option.some.injEq] at h
      rwa [← hj, ← h]
    · rw [if_neg hj] at h
      cases h
  · intro h
    exact ⟨(k, x), h, if_pos rfl⟩

end IocpServer
