import Mathlib.Data.List.Nodup

/-!
# A sequence of stages and how far it has come

`stages` are run in their order, `pos` of them have been run. `Done` : a stage has been run.
-/

set_option autoImplicit false

namespace Stages

variable {α : Type*} {stages : List α} {pos : ℕ} {i k : α}

/-- The stage `i` is one of the first `pos`. -/
def Done (stages : List α) (pos : ℕ) (i : α) : Prop :=
  i ∈ stages.take pos

instance [DecidableEq α] : Decidable (Done stages pos i) :=
  inferInstanceAs (Decidable (i ∈ stages.take pos))

theorem not_done_zero : ¬Done stages 0 i := by
  simp [Done]

/-- After one more stage. -/
theorem done_succ (h : stages[pos]? = some k) :
    Done stages (pos + 1) i ↔ Done stages pos i ∨ i = k := by
  simp [Done, List.take_add_one, h]

/-- A stage that is next has not been run before. -/
theorem not_done_of_nodup (hn : stages.Nodup) (h : stages[pos]? = some k) :
    ¬Done stages pos k := by
  intro hdone
  have hdrop : k ∈ stages.drop pos :=
    List.mem_iff_getElem?.mpr ⟨0, by rw [List.getElem?_drop, Nat.add_zero, h]⟩
  exact List.disjoint_take_drop hn (Nat.le_refl pos) hdone hdrop

end Stages
