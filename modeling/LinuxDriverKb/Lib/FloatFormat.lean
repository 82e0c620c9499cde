import LinuxDriverKb.Lib.FixedPoint
import Mathlib.Algebra.Order.Ring.Int

/-!
# Floating-point formats

The numbers of a binary format, and the arithmetic that rounds each result to one of them,
in whatever mode. A result that is a number of the format is not rounded; so fixed-point
numbers of few bits are scaled by powers of two without any loss.
-/

set_option autoImplicit false

namespace FloatFormat

open FixedPoint (val)

/-- A binary format : the bits of a significand, and the exponents of its last bit. -/
structure Format where
  precision : ℕ
  emin : ℤ
  emax : ℤ

/-- `float`. -/
def binary32 : Format := ⟨24, -149, 104⟩

/-- `double`. -/
def binary64 : Format := ⟨53, -1074, 971⟩

variable {F : Format}

/-- `q` is a number of the format. -/
def Format.Fits (F : Format) (q : ℚ) : Prop :=
  ∃ m e : ℤ, |m| < 2 ^ F.precision ∧ F.emin ≤ e ∧ e ≤ F.emax ∧ q = m * 2 ^ e

/-- A fixed-point number whose integer is a significand of the format. -/
theorem fits_val {x : ℤ} {f : ℕ} (hx : |x| < 2 ^ F.precision) (hmin : F.emin ≤ -f)
    (hmax : 0 ≤ F.emax) : F.Fits (val x f) := by
  refine ⟨x, -f, hx, hmin, by omega, ?_⟩
  rw [val, zpow_neg, zpow_natCast, div_eq_mul_inv, Nat.cast_pow, Nat.cast_ofNat]

/-- A rounding to the format. -/
structure Rounding (F : Format) where
  round : ℚ → ℚ
  round_eq : ∀ q, F.Fits q → round q = q

namespace Rounding

variable (R : Rounding F)

/-- The rounded product. -/
def mul (p q : ℚ) : ℚ :=
  R.round (p * q)

/-- The rounded quotient. -/
def div (p q : ℚ) : ℚ :=
  R.round (p / q)

/-- The rounded power. -/
def pow (p : ℚ) (n : ℕ) : ℚ :=
  R.round (p ^ n)

variable {x : ℤ} {f g : ℕ}

theorem mul_one_eq {q : ℚ} (h : F.Fits q) : R.mul q 1 = q := by
  rw [mul, mul_one, R.round_eq q h]

/-- A power of two is a number of the format while its exponent is one. -/
theorem pow_two_eq (hp : 0 < F.precision) (hmin : F.emin ≤ f) (hmax : f ≤ F.emax) :
    R.pow 2 f = (2 ^ f : ℕ) := by
  have hfits : F.Fits (2 ^ f) :=
    ⟨1, f, one_lt_pow₀ one_lt_two hp.ne', hmin, hmax, by rw [Int.cast_one, one_mul, zpow_natCast]⟩
  rw [pow, R.round_eq _ hfits, Nat.cast_pow, Nat.cast_ofNat]

/-- Scaling by a power of two shifts the binary point. -/
theorem div_two_pow_eq (hx : |x| < 2 ^ F.precision) (hmin : F.emin ≤ -(f + g : ℕ))
    (hmax : 0 ≤ F.emax) : R.div (val x f) (2 ^ g : ℕ) = val x (f + g) := by
  have hval : val x f / (2 ^ g : ℕ) = val x (f + g) := by
    rw [val, val, div_div, ← Nat.cast_mul, ← pow_add]
  rw [div, hval, R.round_eq _ (fits_val hx hmin hmax)]

end Rounding

end FloatFormat
