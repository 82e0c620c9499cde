import Mathlib.Data.List.Basic
import Mathlib.Order.Basic

/-!
# Copying between memories

A memory is a function from addresses to bytes. `memcpy dst d src s n` is `dst` after
`n` bytes of `src` from `s` on are copied to it at `d`; source and target are two
memories, so the copy reads nothing it wrote.
-/

set_option autoImplicit false

namespace ByteMem

variable {β : Type*}

/-- `dst` with the `n` entries from `d` on replaced by the entries of `src` from `s` on. -/
def memcpy (dst : ℕ → β) (d : ℕ) (src : ℕ → β) (s n : ℕ) : ℕ → β :=
  fun i => if d ≤ i ∧ i < d + n then src (s + (i - d)) else dst i

/-- `dst` with the `n` entries from `d` on set to `c`. -/
def memset (dst : ℕ → β) (d : ℕ) (c : β) (n : ℕ) : ℕ → β :=
  memcpy dst d (fun _ => c) 0 n

/-- The first `n` entries of `src`. -/
def bytes (src : ℕ → β) (n : ℕ) : List β :=
  (List.range n).map src

variable {dst src : ℕ → β} {d s n i : ℕ}

theorem memcpy_apply_of_mem (h : d ≤ i ∧ i < d + n) :
    memcpy dst d src s n i = src (s + (i - d)) :=
  if_pos h

/-- Outside its target range a copy changes nothing. -/
theorem memcpy_apply_of_not_mem (h : ¬(d ≤ i ∧ i < d + n)) : memcpy dst d src s n i = dst i :=
  if_neg h

theorem memset_apply_of_mem {c : β} (h : d ≤ i ∧ i < d + n) : memset dst d c n i = c :=
  memcpy_apply_of_mem h

@[simp] theorem memcpy_zero (dst : ℕ → β) (d : ℕ) (src : ℕ → β) (s : ℕ) :
    memcpy dst d src s 0 = dst := by
  ext i
  exact memcpy_apply_of_not_mem (by omega)

/-- A copy through a buffer in between. -/
theorem memcpy_memcpy (tmp : ℕ → β) (e : ℕ) :
    memcpy dst d (memcpy tmp e src s n) e n = memcpy dst d src s n := by
  ext i
  by_cases hi : d ≤ i ∧ i < d + n
  · rw [memcpy_apply_of_mem hi, memcpy_apply_of_mem hi, memcpy_apply_of_mem (by omega)]
    congr 1
    omega
  · rw [memcpy_apply_of_not_mem hi, memcpy_apply_of_not_mem hi]

/-- Two copies, the second where the first ends. -/
theorem memcpy_append (m : ℕ) :
    memcpy (memcpy dst d src s n) (d + n) src (s + n) m = memcpy dst d src s (n + m) := by
  ext i
  by_cases hi : d + n ≤ i ∧ i < d + n + m
  · rw [memcpy_apply_of_mem hi, memcpy_apply_of_mem (by omega)]
    congr 1
    omega
  · rw [memcpy_apply_of_not_mem hi]
    by_cases hi' : d ≤ i ∧ i < d + n
    · rw [memcpy_apply_of_mem hi', memcpy_apply_of_mem (by omega)]
    · rw [memcpy_apply_of_not_mem hi', memcpy_apply_of_not_mem (by omega)]

theorem bytes_length (src : ℕ → β) (n : ℕ) : (bytes src n).length = n := by
  simp [bytes]

theorem bytes_congr (h : ∀ i < n, dst i = src i) : bytes dst n = bytes src n :=
  List.map_congr_left fun i hi => h i (List.mem_range.mp hi)

end ByteMem
