import Mathlib.Data.List.Basic
import Mathlib.Tactic.Ring

/-!
# Rounding with masks

`x & ~(unit - 1)` for a unit that is a power of two, on machine words.

## Main results

* `and_highMask`
* `toNat_roundDown`, `toNat_roundUp`
-/

namespace TradutorLinux

open Nat

theorem testBit_highMask {lo hi : ℕ} (h : lo ≤ hi) (i : ℕ) :
    (2 ^ hi - 2 ^ lo).testBit i = (decide (i < hi) && !decide (i < lo)) := by
  have hp : 0 < 2 ^ lo := Nat.two_pow_pos lo
  have hl : 2 ^ lo ≤ 2 ^ hi := Nat.pow_le_pow_right (by decide) h
  have hs := testBit_two_pow_sub_succ (x := 2 ^ lo - 1) (n := hi) (by omega) i
  rw [Nat.sub_add_cancel hp] at hs
  rw [hs, testBit_two_pow_sub_one]

/-- **A mask of the bits from `lo` to `hi` rounds down.** -/
theorem and_highMask {lo hi : ℕ} (h : lo ≤ hi) (x : ℕ) :
    x &&& (2 ^ hi - 2 ^ lo) = x % 2 ^ hi / 2 ^ lo * 2 ^ lo := by
  apply eq_of_testBit_eq
  intro i
  rw [testBit_and, testBit_highMask h, mul_comm, testBit_two_pow_mul,
    testBit_div_two_pow, testBit_mod_two_pow]
  by_cases hi' : lo ≤ i
  · simp [hi', not_lt.2 hi', Bool.and_comm]
  · simp [hi', not_le.1 hi']

/-- `x & ~(2 ^ lo - 1)`. -/
def roundDown (lo : ℕ) (x : UInt64) : UInt64 := x &&& UInt64.ofNat (2 ^ 64 - 2 ^ lo)

/-- `(x + 2 ^ lo - 1) & ~(2 ^ lo - 1)`, which wraps around as the sum does. -/
def roundUp (lo : ℕ) (x : UInt64) : UInt64 := roundDown lo (x + UInt64.ofNat (2 ^ lo - 1))

variable {lo : ℕ}

theorem toNat_roundDown (h : lo < 64) (x : UInt64) :
    (roundDown lo x).toNat = x.toNat / 2 ^ lo * 2 ^ lo := by
  have hp : 0 < 2 ^ lo := Nat.two_pow_pos lo
  have hl : 2 ^ 64 - 2 ^ lo < 2 ^ 64 := by omega
  rw [roundDown, UInt64.toNat_and, UInt64.toNat_ofNat_of_lt' hl, and_highMask (le_of_lt h),
    mod_eq_of_lt x.toNat_lt]

theorem toNat_roundUp (h : lo < 64) (x : UInt64) :
    (roundUp lo x).toNat = (x.toNat + (2 ^ lo - 1)) % 2 ^ 64 / 2 ^ lo * 2 ^ lo := by
  have hl : 2 ^ lo < 2 ^ 64 := Nat.pow_lt_pow_right (by decide) h
  rw [roundUp, toNat_roundDown h, UInt64.toNat_add,
    UInt64.toNat_ofNat_of_lt' (show 2 ^ lo - 1 < 2 ^ 64 by omega)]

theorem toNat_roundUp_of_lt (h : lo < 64) {x : UInt64} (hx : x.toNat + (2 ^ lo - 1) < 2 ^ 64) :
    (roundUp lo x).toNat = (x.toNat + (2 ^ lo - 1)) / 2 ^ lo * 2 ^ lo := by
  rw [toNat_roundUp h, mod_eq_of_lt hx]

end TradutorLinux
