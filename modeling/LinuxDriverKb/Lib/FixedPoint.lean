import Mathlib.Data.Rat.Floor
import Mathlib.Tactic.FieldSimp

/-!
# Binary fixed-point numbers

An integer read as a number with a given number of fraction bits, and rounding towards
minus infinity : to fewer fraction bits, and of a multiple to an integer. Both are
arithmetic shifts of the integer. For people such a number is shown with some decimals.
-/

set_option autoImplicit false

namespace FixedPoint

/-- The integer `x` with `f` fraction bits. -/
def val (x : ℤ) (f : ℕ) : ℚ :=
  x / (2 ^ f : ℕ)

/-- `q` truncated to `g` fraction bits, towards minus infinity. -/
def truncate (q : ℚ) (g : ℕ) : ℚ :=
  val ⌊q * (2 ^ g : ℕ)⌋ g

/-- Truncation drops the low bits. -/
theorem truncate_val (x : ℤ) {f g : ℕ} (h : g ≤ f) :
    truncate (val x f) g = val (x / (2 ^ (f - g) : ℕ)) g := by
  have hpow : ((2 ^ f : ℕ) : ℚ) = (2 ^ (f - g) : ℕ) * (2 ^ g : ℕ) := by
    rw [← Nat.cast_mul, ← Nat.pow_add, Nat.sub_add_cancel h]
  have hq : val x f * (2 ^ g : ℕ) = x / (2 ^ (f - g) : ℕ) := by
    have hg : ((2 ^ g : ℕ) : ℚ) ≠ 0 := Nat.cast_ne_zero.mpr (Nat.two_pow_pos g).ne'
    have hfg : ((2 ^ (f - g) : ℕ) : ℚ) ≠ 0 := Nat.cast_ne_zero.mpr (Nat.two_pow_pos _).ne'
    rw [val, hpow]
    field_simp
  rw [truncate, hq, Rat.floor_intCast_div_natCast]

/-- The integer part of a multiple. -/
theorem floor_mul_val (k x : ℤ) (g : ℕ) : ⌊(k : ℚ) * val x g⌋ = k * x / (2 ^ g : ℕ) := by
  rw [val, ← mul_div_assoc, ← Int.cast_mul, Rat.floor_intCast_div_natCast]

/-! ## What truncation loses -/

theorem truncate_le (q : ℚ) (g : ℕ) : truncate q g ≤ q := by
  have hpow : (0 : ℚ) < (2 ^ g : ℕ) := Nat.cast_pos.mpr (Nat.two_pow_pos g)
  rw [truncate, val, div_le_iff₀ hpow]
  exact Int.floor_le _

/-- Truncation loses less than the unit of the last bit kept. -/
theorem lt_truncate_add (q : ℚ) (g : ℕ) : q < truncate q g + 1 / (2 ^ g : ℕ) := by
  have hpow : (0 : ℚ) < (2 ^ g : ℕ) := Nat.cast_pos.mpr (Nat.two_pow_pos g)
  rw [truncate, val, ← add_div, lt_div_iff₀ hpow]
  exact Int.lt_floor_add_one _

/-- A multiple of what is truncated, rounded down to an integer : never above the multiple,
and below it by less than one and the multiple of the unit. -/
theorem floor_mul_truncate {k : ℚ} (hk : 0 < k) (q : ℚ) (g : ℕ) :
    (⌊k * truncate q g⌋ : ℚ) ≤ k * q ∧ k * q < ⌊k * truncate q g⌋ + 1 + k / (2 ^ g : ℕ) := by
  constructor
  · calc (⌊k * truncate q g⌋ : ℚ) ≤ k * truncate q g := Int.floor_le _
      _ ≤ k * q := mul_le_mul_of_nonneg_left (truncate_le q g) hk.le
  · calc k * q < k * (truncate q g + 1 / (2 ^ g : ℕ)) :=
          mul_lt_mul_of_pos_left (lt_truncate_add q g) hk
      _ = k * truncate q g + k / (2 ^ g : ℕ) := by rw [mul_add, mul_one_div]
      _ < ⌊k * truncate q g⌋ + 1 + k / (2 ^ g : ℕ) :=
          add_lt_add_left (Int.lt_floor_add_one _) _

/-! ## Decimals -/

/-- A conversion to `n` decimals, in units of the last, rounded in whatever mode. -/
structure Decimals (n : ℕ) where
  toInt : ℚ → ℤ
  abs_sub_lt : ∀ q, |(toInt q : ℚ) - 10 ^ n * q| < 1

/-- Rounding down. -/
def Decimals.floor {n : ℕ} : Decimals n where
  toInt q := ⌊10 ^ n * q⌋
  abs_sub_lt q := by
    rw [abs_sub_comm, abs_of_nonneg (sub_nonneg.mpr (Int.floor_le _)), Int.self_sub_floor]
    exact Int.fract_lt_one _

/-- A number that has no more decimals is not rounded. -/
theorem Decimals.toInt_eq {n : ℕ} (P : Decimals n) {q : ℚ} {v : ℤ} (h : 10 ^ n * q = v) :
    P.toInt q = v := by
  have hlt := P.abs_sub_lt q
  rw [h] at hlt
  have habs : |P.toInt q - v| < 1 := by exact_mod_cast hlt
  exact sub_eq_zero.mp (Int.abs_lt_one_iff.mp habs)

end FixedPoint
