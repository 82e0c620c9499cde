import Mathlib.Data.Nat.Digits.Defs

/-!
# Streams of records of one size

A stream of records is cut back into them, and a number of a field is read back from its
bytes, the lowest first.
-/

set_option autoImplicit false

namespace Records

variable {α : Type*} {n : ℕ}

/-- The first `k` records of size `n`. -/
def take (n : ℕ) : ℕ → List α → List (List α)
  | 0, _ => []
  | k + 1, xs => xs.take n :: take n k (xs.drop n)

/-- The stream `xs` as records of size `n`. -/
def split (n : ℕ) (xs : List α) : List (List α) :=
  take n (xs.length / n) xs

theorem length_flatten : ∀ {rs : List (List α)}, (∀ r ∈ rs, r.length = n) →
    rs.flatten.length = rs.length * n
  | [], _ => by simp
  | r :: rs, h => by
    obtain ⟨hr, hrs⟩ := List.forall_mem_cons.mp h
    rw [List.flatten_cons, List.length_append, hr, length_flatten hrs, List.length_cons,
      Nat.succ_mul, Nat.add_comm]

theorem take_flatten : ∀ {rs : List (List α)}, (∀ r ∈ rs, r.length = n) →
    take n rs.length rs.flatten = rs
  | [], _ => rfl
  | r :: rs, h => by
    obtain ⟨hr, hrs⟩ := List.forall_mem_cons.mp h
    rw [List.length_cons, List.flatten_cons, take, List.take_left' hr, List.drop_left' hr,
      take_flatten hrs]

/-- A stream is cut into the records it was made of. -/
theorem split_flatten (hn : 0 < n) {rs : List (List α)} (h : ∀ r ∈ rs, r.length = n) :
    split n rs.flatten = rs := by
  rw [split, length_flatten h, Nat.mul_div_cancel _ hn, take_flatten h]

/-! ## Numbers -/

/-- The lowest `k` digits of `x` are those of `x` modulo the power. -/
theorem ofDigits_range (b x : ℕ) : ∀ k : ℕ,
    Nat.ofDigits b ((List.range k).map fun i => x / b ^ i % b) = x % b ^ k
  | 0 => by simp [Nat.mod_one]
  | k + 1 => by
    have htail : ((List.range k).map Nat.succ).map (fun i => x / b ^ i % b) =
        (List.range k).map fun i => x / b / b ^ i % b := by
      rw [List.map_map]
      refine List.map_congr_left fun i _ => ?_
      rw [Function.comp_apply, Nat.succ_eq_add_one, Nat.pow_succ', Nat.div_div_eq_div_mul]
    rw [List.range_succ_eq_map, List.map_cons, htail, Nat.ofDigits_cons, ofDigits_range b (x / b) k,
      Nat.pow_zero, Nat.div_one, Nat.pow_succ', Nat.mod_mul]

end Records
