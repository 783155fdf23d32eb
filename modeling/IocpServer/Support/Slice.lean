import Mathlib.Data.List.Basic
import Mathlib.Tactic.Common

/-!
# Support — Slice

A memory of a fixed length as a list.  `fetch` reads a range and `store` overwrites one.

* `fetch_store`: what was stored reads back.
* `fetch_store_before`, `fetch_store_after`: a range on either side of a store is as it was.
* `fetch_add`: two ranges in a row.
-/

namespace IocpServer.Slice

variable {α : Type}

/-- The `len` cells from `off` on. -/
def fetch (off len : Nat) (bs : List α) : List α := (bs.drop off).take len

/-- `bs` with `xs` in place of the cells from `off` on. -/
def store (off : Nat) (xs bs : List α) : List α := bs.take off ++ (xs ++ bs.drop (off + xs.length))

variable {off a b len : Nat} {xs bs : List α}

theorem fetch_length (h : off + len ≤ bs.length) : (fetch off len bs).length = len := by
  rw [fetch, List.length_take_of_le]
  rw [List.length_drop]
  omega

theorem fetch_zero (len : Nat) (bs : List α) : fetch 0 len bs = bs.take len := rfl

theorem fetch_add (off a b : Nat) (bs : List α) :
    fetch off (a + b) bs = fetch off a bs ++ fetch (off + a) b bs := by
  rw [fetch, fetch, fetch, List.take_add, List.drop_drop]

/-- A range of the front. -/
theorem fetch_append_left (h : off + len ≤ xs.length) : fetch off len (xs ++ bs) = fetch off len xs := by
  rw [fetch, fetch, List.drop_append_of_le_length (by omega), List.take_append_of_le_length]
  rw [List.length_drop]
  omega

/-- A range that begins in the front and ends behind it. -/
theorem fetch_append (h : off ≤ xs.length) :
    fetch off len (xs ++ bs) = fetch off len xs ++ bs.take (len - (xs.length - off)) := by
  rw [fetch, fetch, List.drop_append_of_le_length h, List.take_append, List.length_drop]

/-- A range that ends in a run of one value behind the front. -/
theorem fetch_append_replicate (m : Nat) (x : α) (h : off + len ≤ xs.length + m) :
    fetch off len (xs ++ List.replicate m x) =
      fetch off len xs ++ List.replicate (len - (xs.length - off)) x := by
  rw [fetch, fetch, List.drop_append, List.take_append, List.drop_replicate, List.take_replicate,
    List.length_drop, Nat.min_eq_left (by omega)]

theorem store_length (h : off + xs.length ≤ bs.length) : (store off xs bs).length = bs.length := by
  rw [store, List.length_append, List.length_append, List.length_take_of_le (by omega),
    List.length_drop]
  omega

/-- What was stored reads back. -/
theorem fetch_store (hx : xs.length = len) (h : off + len ≤ bs.length) :
    fetch off len (store off xs bs) = xs := by
  have htake : (bs.take off).length = off := List.length_take_of_le (by omega)
  rw [fetch, store, List.drop_left' htake, List.take_left' hx]

theorem fetch_store_before (h : off ≤ bs.length) (ha : a + len ≤ off) :
    fetch a len (store off xs bs) = fetch a len bs := by
  have htake : (bs.take off).length = off := List.length_take_of_le h
  conv_rhs => rw [← List.take_append_drop off bs]
  rw [store, fetch_append_left (by omega), fetch_append_left (by omega)]

theorem fetch_store_after (h : off + xs.length ≤ bs.length) (ha : off + xs.length ≤ a) :
    fetch a len (store off xs bs) = fetch a len bs := by
  have hlen : (bs.take off ++ xs).length = off + xs.length := by
    rw [List.length_append, List.length_take_of_le (by omega)]
  obtain ⟨k, rfl⟩ := Nat.exists_eq_add_of_le ha
  have hskip : (bs.take off ++ xs ++ bs.drop (off + xs.length)).drop (off + xs.length + k) =
      (bs.drop (off + xs.length)).drop k := by
    rw [← hlen]
    exact List.drop_length_add_append k
  rw [fetch, fetch, store, ← List.append_assoc, hskip, List.drop_drop]

/-- A store that continues a range extends it. -/
theorem fetch_store_extend (hx : xs.length = b) (h : off + b ≤ bs.length) (ha : a + len = off) :
    fetch a (len + b) (store off xs bs) = fetch a len bs ++ xs := by
  rw [fetch_add, fetch_store_before (by omega) (Nat.le_of_eq ha), ha, fetch_store hx h]

/-- A store in front of a range. -/
theorem fetch_store_front (hx : xs.length = a) (h : a ≤ bs.length) :
    fetch 0 (a + b) (store 0 xs bs) = xs ++ fetch a b bs := by
  rw [fetch_add, fetch_store hx (by omega), Nat.zero_add,
    fetch_store_after (by omega) (by omega)]

end IocpServer.Slice
