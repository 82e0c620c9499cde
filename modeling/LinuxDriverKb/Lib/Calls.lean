import Mathlib.Data.List.Basic

/-!
# Calls in progress

The calls made so far as a list, in which a step replaces the entry of one call and a new
call is appended : what an entry of the new list says about the old one.
-/

set_option autoImplicit false

namespace Calls

variable {α : Type*} {calls : List α} {i j : ℕ} {new c : α}

/-- After a step of call `i` : its entry is the new one, the others are as they were. -/
theorem set_cases (h : (calls.set i new)[j]? = some c) :
    (j = i ∧ c = new) ∨ (j ≠ i ∧ calls[j]? = some c) := by
  by_cases hij : i = j
  · rw [List.getElem?_set, if_pos hij] at h
    split at h
    · exact Or.inl ⟨hij.symm, (Option.some.inj h).symm⟩
    · exact absurd h (by simp)
  · rw [List.getElem?_set_ne hij] at h
    exact Or.inr ⟨Ne.symm hij, h⟩

theorem set_self (h : calls[i]? = some c) : (calls.set i new)[i]? = some new := by
  obtain ⟨hi, -⟩ := List.getElem?_eq_some_iff.mp h
  exact List.getElem?_set_self hi

theorem set_other (hij : j ≠ i) (h : calls[j]? = some c) : (calls.set i new)[j]? = some c := by
  rwa [List.getElem?_set_ne (Ne.symm hij)]

/-- After a new call. -/
theorem append_cases (h : (calls ++ [new])[j]? = some c) :
    (j = calls.length ∧ c = new) ∨ calls[j]? = some c := by
  by_cases hj : j < calls.length
  · exact Or.inr (by rwa [List.getElem?_append_left hj] at h)
  · obtain ⟨hlt, -⟩ := List.getElem?_eq_some_iff.mp h
    rw [List.length_append, List.length_singleton] at hlt
    obtain rfl : j = calls.length := by omega
    rw [List.getElem?_concat_length] at h
    exact Or.inl ⟨rfl, (Option.some.inj h).symm⟩

theorem append_old (h : calls[j]? = some c) : (calls ++ [new])[j]? = some c := by
  obtain ⟨hj, -⟩ := List.getElem?_eq_some_iff.mp h
  rwa [List.getElem?_append_left hj]

/-! ## Where a call is -/

variable {β : Type*} {pc : α → β} {p q : β}

/-- Call `i` is at `p`. -/
def At (pc : α → β) (calls : List α) (i : ℕ) (p : β) : Prop :=
  ∃ c, calls[i]? = some c ∧ pc c = p

theorem At.unique (h : At pc calls i p) (h' : At pc calls i q) : p = q := by
  obtain ⟨c, hc, rfl⟩ := h
  obtain ⟨c', hc', rfl⟩ := h'
  rw [Option.some.inj (hc.symm.trans hc')]

theorem at_nil : ¬ At pc [] i p := by
  rintro ⟨c, hc, -⟩
  simp at hc

theorem at_set (h : calls[i]? = some c) :
    At pc (calls.set i new) j p ↔ (j = i ∧ pc new = p) ∨ (j ≠ i ∧ At pc calls j p) := by
  constructor
  · rintro ⟨d, hd, rfl⟩
    rcases set_cases hd with ⟨hji, rfl⟩ | ⟨hji, hd⟩
    · exact Or.inl ⟨hji, rfl⟩
    · exact Or.inr ⟨hji, d, hd, rfl⟩
  · rintro (⟨rfl, rfl⟩ | ⟨hji, d, hd, rfl⟩)
    · exact ⟨new, set_self h, rfl⟩
    · exact ⟨d, set_other hji hd, rfl⟩

/-- A step from `q` to elsewhere moves no call that is at `p`. -/
theorem at_set_of_ne (h : At pc calls i q) (hq : q ≠ p) (hnew : pc new ≠ p) :
    At pc (calls.set i new) j p ↔ At pc calls j p := by
  obtain ⟨c, hc, rfl⟩ := h
  rw [at_set hc]
  constructor
  · rintro (⟨-, hp⟩ | ⟨-, hj⟩)
    · exact absurd hp hnew
    · exact hj
  · intro hj
    refine Or.inr ⟨?_, hj⟩
    rintro rfl
    exact hq (At.unique ⟨c, hc, rfl⟩ hj)

theorem at_append : At pc (calls ++ [new]) j p ↔
    (j = calls.length ∧ pc new = p) ∨ At pc calls j p := by
  constructor
  · rintro ⟨d, hd, rfl⟩
    rcases append_cases hd with ⟨hj, rfl⟩ | hd
    · exact Or.inl ⟨hj, rfl⟩
    · exact Or.inr ⟨d, hd, rfl⟩
  · rintro (⟨rfl, rfl⟩ | ⟨d, hd, rfl⟩)
    · exact ⟨new, List.getElem?_concat_length, rfl⟩
    · exact ⟨d, append_old hd, rfl⟩

/-- A new call that starts elsewhere. -/
theorem at_append_of_ne (hnew : pc new ≠ p) :
    At pc (calls ++ [new]) j p ↔ At pc calls j p := by
  rw [at_append]
  exact or_iff_right fun h => hnew h.2

/-- Some call is at `p`. -/
def AnyAt (pc : α → β) (calls : List α) (p : β) : Prop :=
  ∃ c ∈ calls, pc c = p

instance [DecidableEq β] : Decidable (AnyAt pc calls p) :=
  inferInstanceAs (Decidable (∃ c ∈ calls, pc c = p))

theorem At.anyAt (h : At pc calls i p) : AnyAt pc calls p := by
  obtain ⟨c, hc, hp⟩ := h
  exact ⟨c, List.mem_of_getElem? hc, hp⟩

theorem AnyAt.exists_at (h : AnyAt pc calls p) : ∃ i, At pc calls i p := by
  obtain ⟨c, hc, hp⟩ := h
  obtain ⟨i, hi⟩ := List.mem_iff_getElem?.mp hc
  exact ⟨i, c, hi, hp⟩

end Calls
