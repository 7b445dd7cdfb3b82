import Mathlib.Tactic.Ring

/-!
# Two's complement 64-bit integers

Go's `int64(x)` of a `uint64`, `int64` arithmetic that wraps, and `uint64(d)` of an `int64`, over `ℤ`:
`toInt64` reads the bits of a `uint64` in two's complement, `wrapInt64` reduces an exact result to the range
of `int64`, and `toUint64` gives the bits back.  A wrapped result is the exact one whenever that fits
(`wrapInt64_eq`), so the difference of two `uint64`s read as `int64`s is the exact difference when it is
small (`wrapInt64_sub_toInt64`).
-/

namespace TwosComplement

/-- `int64(x)` of a `uint64`. -/
def toInt64 (x : ℕ) : ℤ := if x < 2 ^ 63 then x else x - 2 ^ 64

/-- The `int64` an exact integer result wraps to. -/
def wrapInt64 (z : ℤ) : ℤ := toInt64 (z % 2 ^ 64).toNat

/-- `uint64(d)` of an `int64`. -/
def toUint64 (z : ℤ) : ℕ := (z % 2 ^ 64).toNat

theorem toInt64_emod {x : ℕ} (hx : x < 2 ^ 64) : toInt64 x % 2 ^ 64 = x := by
  unfold toInt64
  split <;> omega

/-- An integer in the range of `int64` is what everything congruent to it wraps to. -/
theorem wrapInt64_eq {z z' : ℤ} (hz : z % 2 ^ 64 = z' % 2 ^ 64) (lo : -2 ^ 63 ≤ z') (hi : z' < 2 ^ 63) :
    wrapInt64 z = z' := by
  unfold wrapInt64 toInt64
  rw [hz]
  split <;> omega

theorem toUint64_of_nonneg {z : ℤ} (h0 : 0 ≤ z) (h : z < 2 ^ 64) : toUint64 z = z.toNat := by
  unfold toUint64
  rw [Int.emod_eq_of_lt h0 h]

theorem wrapInt64_sub_toInt64 {x y : ℕ} (hx : x < 2 ^ 64) (hy : y < 2 ^ 64) (lo : -2 ^ 63 ≤ (x : ℤ) - y)
    (hi : (x : ℤ) - y < 2 ^ 63) : wrapInt64 (toInt64 x - toInt64 y) = x - y := by
  apply wrapInt64_eq _ lo hi
  have hx' := toInt64_emod hx
  have hy' := toInt64_emod hy
  rw [Int.sub_emod, hx', hy']

end TwosComplement
