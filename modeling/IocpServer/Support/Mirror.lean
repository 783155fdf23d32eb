import IocpServer.Support.Buckets
import Mathlib.Data.Nat.ModEq

/-!
# Support — Mirror

A memory of `n` cells mapped over and over: the address `v` is the cell `v % n`.  `peek` reads a
window, `poke` writes one cell after the other.

* `peek_poke`: a window just written, no longer than the memory, reads back.
* `peek_poke_disjoint`: a write leaves every window alone that fits beside it in one turn.
* `peek_turn`: a window reads the same one turn on, so a pair of positions may be reduced together.
-/

namespace IocpServer.Mirror

variable {α : Type} {n : Nat}

/-- The window of length `len` at the address `off`. -/
def peek (n : Nat) (mem : Nat → α) (off len : Nat) : List α :=
  (List.range len).map fun k => mem ((off + k) % n)

/-- `mem` after `xs` is written at the address `off`. -/
def poke (n : Nat) (mem : Nat → α) (off : Nat) : List α → Nat → α
  | [] => mem
  | x :: xs => poke n (upd mem (off % n) x) (off + 1) xs

@[simp] theorem peek_length (mem : Nat → α) (off len : Nat) : (peek n mem off len).length = len := by
  simp only [peek, List.length_map, List.length_range]

@[simp] theorem peek_zero (mem : Nat → α) (off : Nat) : peek n mem off 0 = [] := rfl

theorem peek_add (mem : Nat → α) (off a b : Nat) :
    peek n mem off (a + b) = peek n mem off a ++ peek n mem (off + a) b := by
  simp only [peek, List.range_add, List.map_append, List.map_map]
  congr 1
  refine List.map_congr_left fun k _ => ?_
  simp only [Function.comp_apply, Nat.add_assoc]

theorem peek_take (mem : Nat → α) (off : Nat) {a len : Nat} (h : a ≤ len) :
    (peek n mem off len).take a = peek n mem off a := by
  obtain ⟨b, rfl⟩ := Nat.exists_eq_add_of_le h
  rw [peek_add, List.take_left' (peek_length mem off a)]

theorem peek_drop (mem : Nat → α) (off : Nat) {a len : Nat} (h : a ≤ len) :
    (peek n mem off len).drop a = peek n mem (off + a) (len - a) := by
  obtain ⟨b, rfl⟩ := Nat.exists_eq_add_of_le h
  rw [peek_add, List.drop_left' (peek_length mem off a), Nat.add_sub_cancel_left]

/-- A window one turn on. -/
theorem peek_turn (mem : Nat → α) (off len : Nat) : peek n mem (off + n) len = peek n mem off len := by
  refine List.map_congr_left fun k _ => ?_
  rw [Nat.add_right_comm, Nat.add_mod_right]

/-- Two addresses of one turn are different cells. -/
theorem mod_ne {x y : Nat} (h : x < y) (h' : y < x + n) : x % n ≠ y % n := by
  intro e
  have hd : n ∣ y - x := (Nat.modEq_iff_dvd' h.le).mp e
  have := Nat.le_of_dvd (by omega) hd
  omega

/-- A cell no written address maps to keeps its value. -/
theorem poke_other {j : Nat} :
    ∀ (xs : List α) (mem : Nat → α) (off : Nat), (∀ k < xs.length, (off + k) % n ≠ j) →
      poke n mem off xs j = mem j
  | [], _, _, _ => rfl
  | x :: xs, mem, off, h => by
      have h0 : j ≠ off % n := (h 0 (by simp)).symm
      rw [poke, poke_other xs _ _ fun k hk => ?_, upd_other h0]
      have := h (k + 1) (by simpa using hk)
      rwa [Nat.add_assoc, Nat.add_comm 1 k]

/-- **What was written reads back.** -/
theorem peek_poke :
    ∀ (xs : List α) (mem : Nat → α) (off : Nat), xs.length ≤ n →
      peek n (poke n mem off xs) off xs.length = xs
  | [], _, _, _ => rfl
  | x :: xs, mem, off, h => by
      have hlen : xs.length + 1 ≤ n := h
      have hhead : poke n (upd mem (off % n) x) (off + 1) xs (off % n) = x := by
        rw [poke_other xs _ _ fun k hk => (mod_ne (by omega) (by omega)).symm, upd_same]
      rw [List.length_cons, Nat.add_comm xs.length 1, peek_add, poke,
        peek_poke xs _ (off + 1) (by omega)]
      simp only [peek, List.range_one, List.map_cons, List.map_nil, Nat.add_zero, hhead,
        List.singleton_append]

/-- **A write beside a window.**  The window `[a, a + len)` and the written addresses
`[off, off + xs.length)` lie in one turn, the window first. -/
theorem peek_poke_disjoint (mem : Nat → α) {a len off : Nat} (xs : List α) (h₁ : a + len ≤ off)
    (h₂ : off + xs.length ≤ a + n) : peek n (poke n mem off xs) a len = peek n mem a len := by
  refine List.map_congr_left fun k hk => ?_
  rw [List.mem_range] at hk
  exact poke_other xs mem off fun j hj => (mod_ne (by omega) (by omega)).symm

/-- A write that continues a window extends it. -/
theorem peek_poke_append (mem : Nat → α) {a len : Nat} (xs : List α) (h : len + xs.length ≤ n) :
    peek n (poke n mem (a + len) xs) a (len + xs.length) = peek n mem a len ++ xs := by
  rw [peek_add, peek_poke_disjoint mem xs le_rfl (by omega), peek_poke xs mem _ (by omega)]

end IocpServer.Mirror
