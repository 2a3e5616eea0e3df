-- SUMMARY: Conversions between fixed-width machine integers, as wrap-around on integers.
import Mathlib.Data.Int.Init
import Mathlib.Tactic.NormNum

/-!
# Machine words

A signed or unsigned machine integer is an `Int` or `Nat` in the range of its
width; a conversion wraps around modulo the width.
-/

namespace Base.Word

/-- Conversion to `int32_t` (and `int`). -/
def toInt32 (x : Int) : Int := x.bmod (2 ^ 32)

/-- Conversion to `int64_t` (and `ssize_t`, `off_t`). -/
def toInt64 (x : Int) : Int := x.bmod (2 ^ 64)

/-- Conversion to `uint64_t` (and `size_t`). -/
def toUInt64 (x : Int) : Nat := (x % 2 ^ 64).toNat

/-- Conversion to `uint32_t`. -/
def toUInt32 (x : Int) : Nat := (x % 2 ^ 32).toNat

theorem toInt32_of_range {x : Int} (hlo : -2 ^ 31 ≤ x) (hhi : x < 2 ^ 31) : toInt32 x = x := by
  simp only [toInt32, Int.bmod_def]
  omega

theorem toInt32_range (x : Int) : -2 ^ 31 ≤ toInt32 x ∧ toInt32 x < 2 ^ 31 := by
  simp only [toInt32, Int.bmod_def]
  omega

theorem toUInt64_of_range {x : Int} (hlo : 0 ≤ x) (hhi : x < 2 ^ 64) : toUInt64 x = x.toNat := by
  simp only [toUInt64]
  omega

theorem toUInt32_lt (x : Int) : toUInt32 x < 2 ^ 32 := by
  simp only [toUInt32]
  omega

theorem toUInt32_of_range {x : Int} (hlo : 0 ≤ x) (hhi : x < 2 ^ 32) : (toUInt32 x : Int) = x := by
  simp only [toUInt32]
  omega

/-- An `int` that is passed as a `uint32_t` is itself again. -/
theorem toInt32_toUInt32 (x : Int) : toInt32 (toUInt32 x) = toInt32 x := by
  simp only [toInt32, toUInt32, Int.bmod_def]
  omega

@[simp] theorem toInt32_neg_one : toInt32 (-1) = -1 := by
  decide

@[simp] theorem toUInt64_neg_one : toUInt64 (-1) = 2 ^ 64 - 1 := by
  decide

end Base.Word
