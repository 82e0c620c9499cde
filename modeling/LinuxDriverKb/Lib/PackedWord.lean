import Mathlib.Data.Nat.Notation
import Mathlib.Tactic.SplitIfs

/-!
# Fields packed into a word

`field` places a value at an offset of a word, `extract` reads as many bits from there. A word
that is the disjunction of fields that do not overlap has each of them back : `extract` goes
through disjunctions, reads its own field (`extract_field`), and 0 from any other
(`extract_field_of_disjoint`).
-/

set_option autoImplicit false

namespace PackedWord

variable {w n m : ℕ}

/-- A field, shifted to its place in a word. -/
def field (w : ℕ) {n : ℕ} (off : ℕ) (x : BitVec n) : BitVec w :=
  x.setWidth w <<< off

/-- The `n` bits from `off` on. -/
def extract (off n : ℕ) (x : BitVec w) : BitVec n :=
  (x >>> off).setWidth n

theorem getLsbD_extract (off : ℕ) (x : BitVec w) (i : ℕ) :
    (extract off n x).getLsbD i = (decide (i < n) && x.getLsbD (off + i)) := by
  simp [extract]

theorem getLsbD_field (off : ℕ) (x : BitVec n) (i : ℕ) :
    (field w off x).getLsbD i =
      (decide (i < w) && decide (off ≤ i) && x.getLsbD (i - off)) := by
  simp only [field, BitVec.getLsbD_shiftLeft, BitVec.getLsbD_setWidth]
  by_cases hi : i < w
  · have hlt : i - off < w := by omega
    by_cases hoff : off ≤ i <;> simp [hi, hoff, hlt, Nat.not_lt.mpr, Nat.lt_of_not_le]
  · simp [hi]

@[simp] theorem extract_or (off n : ℕ) (x y : BitVec w) :
    extract off n (x ||| y) = extract off n x ||| extract off n y := by
  refine BitVec.eq_of_getLsbD_eq fun i _ => ?_
  simp only [getLsbD_extract, BitVec.getLsbD_or]
  cases decide (i < n) <;> rfl

/-- A field reads back. -/
theorem extract_field {off : ℕ} (h : off + n ≤ w) (x : BitVec n) :
    extract off n (field w off x) = x := by
  refine BitVec.eq_of_getLsbD_eq fun i hi => ?_
  have hlt : off + i < w := by omega
  rw [getLsbD_extract, getLsbD_field]
  simp only [hi, hlt, Nat.le_add_right, Nat.add_sub_cancel_left, decide_true, Bool.true_and]

/-- Nothing reads from a field that is elsewhere. -/
theorem extract_field_of_disjoint {off off' : ℕ} (h : off + n ≤ off' ∨ off' + m ≤ off)
    (x : BitVec m) : extract off n (field w off' x) = 0 := by
  refine BitVec.eq_of_getLsbD_eq fun i hi => ?_
  rw [getLsbD_extract, getLsbD_field]
  rcases h with h | h
  · have hoff : ¬off' ≤ off + i := by omega
    simp [hoff]
  · have hbit : x.getLsbD (off + i - off') = false := BitVec.getLsbD_of_ge _ _ (by omega)
    simp [hbit]

end PackedWord
