import Mathlib.Data.Set.Function
import Mathlib.Order.Interval.Set.Defs
import Mathlib.Tactic.Common

/-!
# Support — Buckets

An array of `0, …, n − 1` in some order, the array of its positions, and a division of the
positions into consecutive buckets by cut points.

* `Paired n dense pos`: `dense` lists `0, …, n − 1` and `pos` is its inverse.  Exchanging two
  entries and patching their two positions keeps the pairing (`Paired.swap`).
* `Cuts n k cut`: `cut 0 = 0 ≤ … ≤ cut k = n`.  The buckets `[cut b, cut (b + 1))` are disjoint
  (`Cuts.bucket_unique`), and moving the left end of one bucket inside its neighbour keeps the
  cuts (`Cuts.move`).
-/

namespace IocpServer

/-- `f` with the value at `i` replaced by `x`. -/
abbrev upd {α : Type} (f : Nat → α) (i : Nat) (x : α) : Nat → α := Function.update f i x

theorem upd_same {α : Type} (f : Nat → α) (i : Nat) (x : α) : upd f i x i = x :=
  Function.update_self i x f

theorem upd_other {α : Type} {i j : Nat} (h : j ≠ i) (f : Nat → α) (x : α) : upd f i x j = f j :=
  Function.update_of_ne h x f

theorem upd_apply {α : Type} (f : Nat → α) (i j : Nat) (x : α) :
    upd f i x j = if j = i then x else f j :=
  Function.update_apply f i x j

/-- `dense` lists `0, …, n − 1`, and `pos` says where. -/
structure Paired (n : Nat) (dense pos : Nat → Nat) : Prop where
  dense_lt : ∀ i < n, dense i < n
  pos_lt : ∀ x < n, pos x < n
  pos_dense : ∀ i < n, pos (dense i) = i
  dense_pos : ∀ x < n, dense (pos x) = x

namespace Paired

variable {n : Nat} {dense pos : Nat → Nat}

theorem bijOn (h : Paired n dense pos) : Set.BijOn dense (Set.Iio n) (Set.Iio n) := by
  refine ⟨h.dense_lt, fun i hi j hj e => ?_, fun x hx => ⟨pos x, h.pos_lt x hx, h.dense_pos x hx⟩⟩
  rw [← h.pos_dense i hi, e, h.pos_dense j hj]

theorem pos_inj (h : Paired n dense pos) {x y : Nat} (hx : x < n) (hy : y < n)
    (e : pos x = pos y) : x = y := by
  rw [← h.dense_pos x hx, e, h.dense_pos y hy]

/-- Exchanging the entries at `p` and `q`, and patching first the position of the entry now at
`p`, then that of the entry now at `q`. -/
theorem swap (h : Paired n dense pos) {p q : Nat} (hp : p < n) (hq : q < n) :
    Paired n (upd (upd dense p (dense q)) q (dense p)) (upd (upd pos (dense q) p) (dense p) q) where
  dense_lt i hi := by
    have := h.dense_lt i hi
    have := h.dense_lt p hp
    have := h.dense_lt q hq
    simp only [upd_apply]; split_ifs <;> assumption
  pos_lt x hx := by
    have := h.pos_lt x hx
    simp only [upd_apply]; split_ifs <;> assumption
  pos_dense i hi := by
    by_cases hiq : i = q
    · subst hiq; simp only [upd_same]
    · rw [upd_other hiq]
      by_cases hip : i = p
      · subst hip
        have hne : dense q ≠ dense i := fun e => hiq (by
          rw [← h.pos_dense i hi, ← e, h.pos_dense q hq])
        rw [upd_same, upd_other hne, upd_same]
      · have hne : ∀ j < n, i ≠ j → dense i ≠ dense j := fun j hj hij e => hij (by
          rw [← h.pos_dense i hi, e, h.pos_dense j hj])
        rw [upd_other hip, upd_other (hne p hp hip), upd_other (hne q hq hiq), h.pos_dense i hi]
  dense_pos x hx := by
    by_cases hxp : x = dense p
    · subst hxp; simp only [upd_same]
    · rw [upd_other hxp]
      by_cases hxq : x = dense q
      · subst hxq
        have hne : p ≠ q := fun e => hxp (by rw [e])
        rw [upd_same, upd_other hne, upd_same]
      · have hp' : pos x ≠ p := fun e => hxp (by rw [← e, h.dense_pos x hx])
        have hq' : pos x ≠ q := fun e => hxq (by rw [← e, h.dense_pos x hx])
        rw [upd_other hxq, upd_other hq', upd_other hp', h.dense_pos x hx]

end Paired

/-- Cut points of `0, …, n − 1` into `k` consecutive buckets. -/
structure Cuts (n k : Nat) (cut : Nat → Nat) : Prop where
  zero : cut 0 = 0
  last : cut k = n
  mono : ∀ b < k, cut b ≤ cut (b + 1)

namespace Cuts

variable {n k : Nat} {cut : Nat → Nat}

theorem le_of_le (h : Cuts n k cut) {a b : Nat} (hab : a ≤ b) (hb : b ≤ k) : cut a ≤ cut b := by
  induction b, hab using Nat.le_induction with
  | base => exact le_rfl
  | succ b _ ih => exact (ih (by omega)).trans (h.mono b (by omega))

theorem le_last (h : Cuts n k cut) {b : Nat} (hb : b ≤ k) : cut b ≤ n :=
  (h.le_of_le hb le_rfl).trans h.last.le

/-- Two buckets that share a position are one. -/
theorem bucket_unique (h : Cuts n k cut) {a b i : Nat} (ha : a < k) (hb : b < k)
    (ha₁ : cut a ≤ i) (ha₂ : i < cut (a + 1)) (hb₁ : cut b ≤ i) (hb₂ : i < cut (b + 1)) :
    a = b := by
  rcases Nat.lt_trichotomy a b with hlt | heq | hgt
  · have := h.le_of_le (a := a + 1) hlt hb.le
    omega
  · exact heq
  · have := h.le_of_le (a := b + 1) hgt ha.le
    omega

/-- An inner cut may move anywhere between its neighbours. -/
theorem move (h : Cuts n k cut) {b c : Nat} (hb : 0 < b) (hbk : b < k) (h₁ : cut (b - 1) ≤ c)
    (h₂ : c ≤ cut (b + 1)) : Cuts n k (upd cut b c) where
  zero := by rw [upd_other (by omega), h.zero]
  last := by rw [upd_other (by omega), h.last]
  mono a ha := by
    have := h.mono a ha
    simp only [upd_apply]
    split_ifs with e₁ e₂ e₂
    · omega
    · subst e₁; exact h₂
    · subst e₂; simpa using h₁
    · exact this

end Cuts

end IocpServer
