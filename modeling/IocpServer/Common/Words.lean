import IocpServer.Support.Buckets
import Mathlib.Algebra.Group.Nat.Defs

/-!
# Common — Words

The fixed-width unsigned integers of the source as natural numbers, and checked array access.
Addition and subtraction wrap by an explicit remainder where the source's would.
-/

namespace IocpServer

/-- `static_cast<uint16_t>(n)`. -/
def u16 (n : Nat) : Nat := n % 2 ^ 16

/-- `static_cast<uint32_t>(n)`. -/
def u32 (n : Nat) : Nat := n % 2 ^ 32

/-- `static_cast<uint64_t>(n)`, which is also `size_t`. -/
def u64 (n : Nat) : Nat := n % 2 ^ 64

/-- `a - b` in `uint32_t`. -/
def sub32 (a b : Nat) : Nat := u32 (a + 2 ^ 32 - b)

/-- `a - b` in `size_t`. -/
def sub64 (a b : Nat) : Nat := u64 (a + 2 ^ 64 - b)

theorem u16_of_lt {n : Nat} (h : n < 2 ^ 16) : u16 n = n := Nat.mod_eq_of_lt h

theorem u32_of_lt {n : Nat} (h : n < 2 ^ 32) : u32 n = n := Nat.mod_eq_of_lt h

theorem u64_of_lt {n : Nat} (h : n < 2 ^ 64) : u64 n = n := Nat.mod_eq_of_lt h

theorem u32_lt (n : Nat) : u32 n < 2 ^ 32 := Nat.mod_lt _ (by decide)

theorem sub32_of_le {a b : Nat} (h : b ≤ a) (ha : a < 2 ^ 32) : sub32 a b = a - b := by
  unfold sub32 u32; omega

theorem sub64_of_le {a b : Nat} (h : b ≤ a) (ha : a < 2 ^ 64) : sub64 a b = a - b := by
  unfold sub64 u64; omega

/-- `a[i]` of an array of length `n`; `none` out of range. -/
def rd {α : Type} (n : Nat) (a : Nat → α) (i : Nat) : Option α :=
  if i < n then some (a i) else none

/-- `a[i] = x` on an array of length `n`; `none` out of range. -/
def wr {α : Type} (n : Nat) (a : Nat → α) (i : Nat) (x : α) : Option (Nat → α) :=
  if i < n then some (upd a i x) else none

theorem rd_of_lt {α : Type} {n i : Nat} (h : i < n) (a : Nat → α) : rd n a i = some (a i) :=
  if_pos h

theorem wr_of_lt {α : Type} {n i : Nat} (h : i < n) (a : Nat → α) (x : α) :
    wr n a i x = some (upd a i x) :=
  if_pos h

end IocpServer
