import Mathlib.Logic.Function.Basic
import Mathlib.Data.List.Basic

/-!
# Circular buffers

A ring of `n` cells with a `head` where entries are put and a `tail` where they are taken.
One cell stays free, so `head = tail` is the empty ring. `contents` reads the pending
entries from `tail` on : a put appends to it (`contents_put`), a take removes its first
entry (`contents_of_ne`).
-/

set_option autoImplicit false

/-- The cells with the two indices. -/
structure CircBuf (α : Type*) where
  buf : ℕ → α
  head : ℕ
  tail : ℕ

namespace CircBuf

variable {α : Type*}

/-- Cells from `tail` up to `head` on a ring of `n`. -/
def cnt (n head tail : ℕ) : ℕ :=
  (head + n - tail) % n

/-- Number of pending entries. -/
def pending (n : ℕ) (b : CircBuf α) : ℕ :=
  cnt n b.head b.tail

/-- Number of entries there is room for. -/
def space (n : ℕ) (b : CircBuf α) : ℕ :=
  cnt n b.tail (b.head + 1)

/-- The pending entries, the oldest first. -/
def contents (n : ℕ) (b : CircBuf α) : List α :=
  (List.range (b.pending n)).map fun i => b.buf ((b.tail + i) % n)

/-- Store `x` at `head`. -/
def put (n : ℕ) (b : CircBuf α) (x : α) : CircBuf α :=
  { b with buf := Function.update b.buf b.head x, head := (b.head + 1) % n }

/-- Drop the entry at `tail`. -/
def pop (n : ℕ) (b : CircBuf α) : CircBuf α :=
  { b with tail := (b.tail + 1) % n }

/-- Both indices are cells of the ring. -/
structure Wf (n : ℕ) (b : CircBuf α) : Prop where
  head_lt : b.head < n
  tail_lt : b.tail < n

theorem cnt_eq {n head tail : ℕ} (hh : head < n) (ht : tail ≤ n) :
    cnt n head tail = if tail ≤ head then head - tail else head + n - tail := by
  unfold cnt
  split_ifs with h
  · rw [show head + n - tail = head - tail + n by omega, Nat.add_mod_right,
      Nat.mod_eq_of_lt (by omega)]
  · rw [Nat.mod_eq_of_lt (by omega)]

theorem succ_mod {n i : ℕ} (h : i < n) : (i + 1) % n = if i + 1 = n then 0 else i + 1 := by
  split_ifs with hi
  · rw [hi, Nat.mod_self]
  · rw [Nat.mod_eq_of_lt (by omega)]

variable {n : ℕ} {b : CircBuf α}

theorem Wf.pending_eq (hb : b.Wf n) :
    b.pending n = if b.tail ≤ b.head then b.head - b.tail else b.head + n - b.tail :=
  cnt_eq hb.head_lt (Nat.le_of_lt hb.tail_lt)

theorem Wf.pending_eq_zero_iff (hb : b.Wf n) : b.pending n = 0 ↔ b.head = b.tail := by
  obtain ⟨hh, ht⟩ := id hb
  rw [hb.pending_eq]
  split_ifs <;> omega

/-- One cell of the ring stays free. -/
theorem Wf.pending_add_space (hb : b.Wf n) : b.pending n + b.space n = n - 1 := by
  obtain ⟨hh, ht⟩ := id hb
  rw [hb.pending_eq, space, cnt_eq ht (by omega)]
  split_ifs <;> omega

theorem Wf.put (hb : b.Wf n) (x : α) : (b.put n x).Wf n :=
  ⟨Nat.mod_lt _ (by have := hb.head_lt; omega), hb.tail_lt⟩

theorem Wf.pop (hb : b.Wf n) : (b.pop n).Wf n :=
  ⟨hb.head_lt, Nat.mod_lt _ (by have := hb.tail_lt; omega)⟩

theorem Wf.pending_put (hb : b.Wf n) (hs : 0 < b.space n) (x : α) :
    (b.put n x).pending n = b.pending n + 1 := by
  have hsum := hb.pending_add_space
  obtain ⟨hh, ht⟩ := id hb
  rw [(hb.put x).pending_eq, hb.pending_eq] at *
  simp only [CircBuf.put, succ_mod hh]
  split_ifs at * <;> omega

theorem Wf.pending_pop (hb : b.Wf n) (hne : b.head ≠ b.tail) :
    (b.pop n).pending n + 1 = b.pending n := by
  obtain ⟨hh, ht⟩ := id hb
  rw [hb.pop.pending_eq, hb.pending_eq]
  simp only [CircBuf.pop, succ_mod ht]
  split_ifs <;> omega

@[simp] theorem length_contents (n : ℕ) (b : CircBuf α) : (b.contents n).length = b.pending n := by
  simp [contents]

theorem Wf.contents_eq_nil_iff (hb : b.Wf n) : b.contents n = [] ↔ b.head = b.tail := by
  rw [← hb.pending_eq_zero_iff, ← List.length_eq_zero_iff, length_contents]

/-- The cell `pending` after `tail` is `head`. -/
theorem Wf.tail_add_pending (hb : b.Wf n) : (b.tail + b.pending n) % n = b.head := by
  obtain ⟨hh, ht⟩ := id hb
  rw [hb.pending_eq]
  split_ifs with h
  · rw [Nat.add_sub_cancel' h, Nat.mod_eq_of_lt hh]
  · rw [show b.tail + (b.head + n - b.tail) = b.head + n by omega, Nat.add_mod_right,
      Nat.mod_eq_of_lt hh]

/-- No pending entry is at `head`. -/
theorem Wf.tail_add_ne_head (hb : b.Wf n) {i : ℕ} (hi : i < b.pending n) :
    (b.tail + i) % n ≠ b.head := by
  obtain ⟨hh, ht⟩ := id hb
  rw [hb.pending_eq] at hi
  rcases Nat.lt_or_ge (b.tail + i) n with h | h
  · rw [Nat.mod_eq_of_lt h]
    split_ifs at hi <;> omega
  · rw [Nat.mod_eq_sub_mod h, Nat.mod_eq_of_lt (by split_ifs at hi <;> omega)]
    split_ifs at hi <;> omega

/-- A put appends to the pending entries. -/
theorem Wf.contents_put (hb : b.Wf n) (hs : 0 < b.space n) (x : α) :
    (b.put n x).contents n = b.contents n ++ [x] := by
  unfold contents
  rw [hb.pending_put hs, List.range_succ, List.map_append, List.map_singleton]
  congr 1
  · refine List.map_congr_left fun i hi => ?_
    exact Function.update_of_ne (hb.tail_add_ne_head (List.mem_range.mp hi)) _ _
  · simp only [CircBuf.put, hb.tail_add_pending, Function.update_self]

/-- The oldest pending entry is the one at `tail`. -/
theorem Wf.contents_of_ne (hb : b.Wf n) (hne : b.head ≠ b.tail) :
    b.contents n = b.buf b.tail :: (b.pop n).contents n := by
  unfold contents
  rw [← hb.pending_pop hne, List.range_succ_eq_map, List.map_cons, Nat.add_zero,
    Nat.mod_eq_of_lt hb.tail_lt, List.map_map]
  congr 1
  refine List.map_congr_left fun i _ => ?_
  simp only [Function.comp, CircBuf.pop, Nat.mod_add_mod]
  rw [show b.tail + (i + 1) = b.tail + 1 + i by omega]

end CircBuf
