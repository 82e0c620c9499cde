import Mathlib.Algebra.BigOperators.Group.Finset.Basic

/-!
# Sums over processes

A sum over the processes of what each contributes, when a step changes one of them.
-/

set_option autoImplicit false

namespace SumUpdate

variable {ι : Type*} {S : Finset ι} {f g : ι → ℕ}

/-- A step that changes only the contribution of `i`. -/
theorem sum_step [DecidableEq ι] {i : ι} (hi : i ∈ S) (h : ∀ k ∈ S, k ≠ i → g k = f k) :
    ∑ k ∈ S, g k + f i = ∑ k ∈ S, f k + g i := by
  have hrest : ∑ k ∈ S.erase i, g k = ∑ k ∈ S.erase i, f k :=
    Finset.sum_congr rfl fun k hk => h k (Finset.mem_of_mem_erase hk) (Finset.ne_of_mem_erase hk)
  rw [← Finset.add_sum_erase S g hi, ← Finset.add_sum_erase S f hi, hrest]
  omega

end SumUpdate
