import Mathlib.Data.Nat.Notation
import Mathlib.Logic.Function.Iterate
import Mathlib.Tactic.SplitIfs

/-!
# Rotations of words

`turn m` rotates a word one place to the left and flips the bits of a mask. It is a
permutation of finite order : `w` turns flip the bits of one fixed mask, `2 * w` turns
give the word back (`turn_iterate_two_mul`).
-/

set_option autoImplicit false

namespace BitRotation

variable {w : ℕ}

/-- One place to the left, then the mask. -/
def turn (m n : BitVec w) : BitVec w :=
  n.rotateLeft 1 ^^^ m

theorem rotateLeft_xor (a b : BitVec w) (k : ℕ) :
    (a ^^^ b).rotateLeft k = a.rotateLeft k ^^^ b.rotateLeft k := by
  ext i hi
  simp only [BitVec.getElem_rotateLeft, BitVec.getElem_xor]
  split_ifs <;> rfl

theorem succ_mod {k : ℕ} (hw : 0 < w) :
    (k + 1) % w = if k % w + 1 = w then 0 else k % w + 1 := by
  have hk := Nat.mod_lt k hw
  rw [← Nat.mod_add_mod]
  split_ifs with h
  · rw [h, Nat.mod_self]
  · exact Nat.mod_eq_of_lt (by omega)

theorem rotateLeft_zero (n : BitVec w) : n.rotateLeft 0 = n := by
  ext i hi
  simp [BitVec.getElem_rotateLeft]

theorem rotateLeft_self (n : BitVec w) : n.rotateLeft w = n := by
  rw [← BitVec.rotateLeft_mod_eq_rotateLeft, Nat.mod_self, rotateLeft_zero]

/-- Where bit `i` of a rotated word comes from. -/
theorem getLsbD_rotateLeft_of_lt (n : BitVec w) (k : ℕ) {i : ℕ} (hi : i < w) :
    (n.rotateLeft k).getLsbD i = n.getLsbD (if i < k % w then w - k % w + i else i - k % w) := by
  rw [BitVec.getLsbD_rotateLeft]
  split_ifs with h <;> simp [h, hi]

theorem rotateLeft_rotateLeft_one (n : BitVec w) (k : ℕ) :
    (n.rotateLeft k).rotateLeft 1 = n.rotateLeft (k + 1) := by
  refine BitVec.eq_of_getLsbD_eq fun i hi => ?_
  have hw := Nat.zero_lt_of_lt hi
  have hk := Nat.mod_lt k hw
  have h1 : 1 % w = if 1 = w then 0 else 1 := by simpa using succ_mod (k := 0) hw
  have hs := succ_mod (k := k) hw
  have hprev : (if i < 1 % w then w - 1 % w + i else i - 1 % w) < w := by
    split_ifs at h1 ⊢ <;> omega
  rw [getLsbD_rotateLeft_of_lt _ _ hi, getLsbD_rotateLeft_of_lt _ _ hprev,
    getLsbD_rotateLeft_of_lt _ _ hi]
  congr 1
  split_ifs at h1 hs ⊢ <;> omega

/-- The mask distributes over the turns. -/
theorem turn_iterate (m n : BitVec w) (k : ℕ) :
    (turn m)^[k] n = n.rotateLeft k ^^^ (turn m)^[k] 0 := by
  induction k with
  | zero => rw [rotateLeft_zero, Function.iterate_zero, id, id]; exact BitVec.xor_zero.symm
  | succ k ih =>
    rw [Function.iterate_succ_apply', ih, Function.iterate_succ_apply', turn, turn, rotateLeft_xor,
      rotateLeft_rotateLeft_one, BitVec.xor_assoc]

theorem turn_iterate_two_mul (m n : BitVec w) : (turn m)^[2 * w] n = n := by
  rw [Nat.two_mul, Function.iterate_add_apply, turn_iterate m _ w, turn_iterate m n w,
    rotateLeft_self, rotateLeft_self, BitVec.xor_assoc, BitVec.xor_self, BitVec.xor_zero]

end BitRotation
