import Mathlib.Algebra.Ring.Int.Defs
import Mathlib.Algebra.Ring.Nat

/-!
# C integers

The fixed-width integers of C as `ℕ` and `ℤ` with explicit wrapping : conversion to a
signed 32-bit or 64-bit integer in two's complement, and a 32-bit unsigned increment.
-/

set_option autoImplicit false

namespace CInt

/-- Conversion to a 32-bit `int`. -/
def toInt32 (x : ℤ) : ℤ :=
  x.bmod (2 ^ 32)

/-- Conversion to a 64-bit signed integer. -/
def toInt64 (x : ℤ) : ℤ :=
  x.bmod (2 ^ 64)

/-- Increment of an unsigned 32-bit integer. -/
def inc32 (x : ℕ) : ℕ :=
  (x + 1) % 2 ^ 32

theorem toInt32_eq {x : ℤ} (h : -2 ^ 31 ≤ x) (h' : x < 2 ^ 31) : toInt32 x = x :=
  Int.bmod_eq_of_le (by omega) (by omega)

theorem toInt64_eq {x : ℤ} (h : -2 ^ 63 ≤ x) (h' : x < 2 ^ 63) : toInt64 x = x :=
  Int.bmod_eq_of_le (by omega) (by omega)

/-- Increments count modulo `2 ^ 32`. -/
theorem inc32_mod (x : ℕ) : inc32 (x % 2 ^ 32) = (x + 1) % 2 ^ 32 :=
  Nat.mod_add_mod x (2 ^ 32) 1

end CInt
