import Mathlib.Data.List.TakeWhile
import Mathlib.Data.Nat.Bitwise
import Mathlib.Data.Set.Lattice
import Mathlib.Order.Bounds.Basic
import Mathlib.Order.CompletePartialOrder
import Mathlib.Order.Interval.Set.LinearOrder
import Mathlib.Tactic.Common

/-! Page arithmetic of `platform/mem.h` and `common/util.h`. Addresses and sizes are natural numbers;
`u64` marks the places where the machine word may wrap. -/

namespace Dangless

/-- A value as the 64-bit machine word holds it. -/
def u64 (n : Nat) : Nat := n % 2 ^ 64

def PGSHIFT : Nat := 12

/-- `1uL << PGSHIFT`. -/
def PGSIZE : Nat := 4096

/-- `ROUND_DOWN(A, N)`. -/
def roundDown (a n : Nat) : Nat := a - a % n

/-- `ROUND_UP(A, N)`. -/
def roundUp (a n : Nat) : Nat := u64 (a + n - 1) / n * n

/-- `PG_OFFSET(BASE, NPAGES)`. -/
def pgOffset (base npages : Nat) : Nat := u64 (base + npages * PGSIZE)

/-- `NUM_SPANNED_PAGES(ADDR, SIZE)`. -/
def numSpannedPages (addr size : Nat) : Nat :=
  u64 (roundUp (u64 (addr + size)) PGSIZE + 2 ^ 64 - roundDown addr PGSIZE) / PGSIZE

theorem u64_of_lt {n : Nat} (h : n < 2 ^ 64) : u64 n = n := Nat.mod_eq_of_lt h

theorem roundDown_eq (a : Nat) : roundDown a PGSIZE = a / PGSIZE * PGSIZE := by
  simp only [roundDown, PGSIZE]
  omega

theorem roundDown_aligned (a : Nat) : roundDown a PGSIZE % PGSIZE = 0 := by
  rw [roundDown_eq]
  simp only [PGSIZE]
  omega

theorem roundUp_eq {a : Nat} (h : a + PGSIZE ≤ 2 ^ 64) :
    roundUp a PGSIZE = (a + (PGSIZE - 1)) / PGSIZE * PGSIZE := by
  simp only [roundUp, u64, PGSIZE] at *
  omega

theorem pgOffset_eq {base npages : Nat} (h : base + npages * PGSIZE < 2 ^ 64) :
    pgOffset base npages = base + npages * PGSIZE := u64_of_lt h

/-- The page count only depends on the offset in the first page. -/
theorem numSpannedPages_eq {addr size : Nat} (h : addr + size + PGSIZE ≤ 2 ^ 64) :
    numSpannedPages addr size = (addr % PGSIZE + size + (PGSIZE - 1)) / PGSIZE := by
  have hsum : u64 (addr + size) = addr + size := u64_of_lt (by simp only [PGSIZE] at h; omega)
  rw [numSpannedPages, hsum, roundUp_eq h, roundDown_eq]
  simp only [u64, PGSIZE] at *
  omega

end Dangless
