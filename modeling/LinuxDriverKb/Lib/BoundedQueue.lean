import Mathlib.Data.List.TakeDrop

/-!
# A bounded queue that drops what does not fit

`putAll` puts elements at the end of a queue, one by one, while there is room. Along with what
was taken from it, the queue has a sublist of what was put, in that order (`Kept.put`), and
all of it as long as everything found room (`keptAll_put_iff`).
-/

set_option autoImplicit false

namespace BoundedQueue

variable {α : Type*} {cap : ℕ} {all taken queue : List α}

/-- An element goes to the end if there is room. -/
def put (cap : ℕ) (queue : List α) (x : α) : List α :=
  if queue.length < cap then queue ++ [x] else queue

/-- Elements are put one by one. -/
def putAll (cap : ℕ) (queue xs : List α) : List α :=
  xs.foldl (put cap) queue

/-- What fits is put. -/
theorem putAll_eq (cap : ℕ) : ∀ (xs queue : List α),
    putAll cap queue xs = queue ++ xs.take (cap - queue.length)
  | [], queue => by simp [putAll]
  | x :: xs, queue => by
    have hrest := putAll_eq cap xs (put cap queue x)
    rw [putAll, List.foldl_cons, ← putAll, hrest, put]
    split_ifs with hroom
    · obtain ⟨n, hn⟩ := Nat.exists_eq_add_of_lt hroom
      have hleft : cap - queue.length = n + 1 := by omega
      rw [List.length_append, List.length_singleton, ← Nat.sub_sub, hleft, List.take_succ_cons,
        List.append_assoc]
      rfl
    · have hfull : cap - queue.length = 0 := by omega
      rw [hfull, List.take_zero, List.take_zero]

theorem map_putAll {β : Type*} (f : α → β) (cap : ℕ) (queue xs : List α) :
    (putAll cap queue xs).map f = putAll cap (queue.map f) (xs.map f) := by
  rw [putAll_eq, putAll_eq, List.map_append, List.map_take, List.length_map]

/-- What was taken and what is queued, in the order in which it was put. -/
def Kept (all taken queue : List α) : Prop :=
  (taken ++ queue).Sublist all

/-- All of it. -/
def KeptAll (all taken queue : List α) : Prop :=
  taken ++ queue = all

theorem Kept.put (h : Kept all taken queue) (cap : ℕ) (xs : List α) :
    Kept (all ++ xs) taken (putAll cap queue xs) := by
  rw [Kept, putAll_eq, ← List.append_assoc]
  exact h.append (List.take_sublist _ xs)

theorem Kept.take (h : Kept all taken queue) (n : ℕ) :
    Kept all (taken ++ queue.take n) (queue.drop n) := by
  rwa [Kept, List.append_assoc, List.take_append_drop]

theorem KeptAll.take (h : KeptAll all taken queue) (n : ℕ) :
    KeptAll all (taken ++ queue.take n) (queue.drop n) := by
  rwa [KeptAll, List.append_assoc, List.take_append_drop]

/-- Without being put, an element is missing. -/
theorem Kept.skip (h : Kept all taken queue) (x : α) : Kept (all ++ [x]) taken queue :=
  List.Sublist.trans h (List.sublist_append_left all [x])

theorem KeptAll.not_skip (h : KeptAll all taken queue) (x : α) :
    ¬KeptAll (all ++ [x]) taken queue := by
  intro hall
  rw [KeptAll, h] at hall
  simpa using congrArg List.length hall

theorem Kept.clear (h : Kept all taken queue) : Kept all taken [] := by
  rw [Kept, List.append_nil]
  exact (List.sublist_append_left taken queue).trans h

/-- A queue that is emptied loses nothing exactly if it was empty. -/
theorem KeptAll.clear_iff (h : KeptAll all taken queue) : KeptAll all taken [] ↔ queue = [] := by
  rw [KeptAll, ← h, List.append_cancel_left_eq, eq_comm]

/-- All is kept exactly if all of it finds room. -/
theorem keptAll_put_iff (h : KeptAll all taken queue) (xs : List α) (hcap : queue.length ≤ cap) :
    KeptAll (all ++ xs) taken (putAll cap queue xs) ↔ queue.length + xs.length ≤ cap := by
  rw [KeptAll, putAll_eq, ← List.append_assoc, h, List.append_cancel_left_eq, List.take_eq_self_iff]
  omega

theorem length_putAll_le (hcap : queue.length ≤ cap) (xs : List α) :
    (putAll cap queue xs).length ≤ cap := by
  rw [putAll_eq, List.length_append, List.length_take]
  omega

end BoundedQueue
